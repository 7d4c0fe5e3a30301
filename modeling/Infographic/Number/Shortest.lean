/-
# Infographic.Number.Shortest -- the fewest digits that read back

A positive number `m * 2 ^ q` is the rounding of every real in an interval around
it, ends included when `m` is even.  For 1, 2, ... 17 digits the two neighbours of
the number on that decimal grid are tried in exact arithmetic; the first grid with
a neighbour in the interval wins, of two neighbours the nearer one, the upper one
of two equally near.
-/
import Infographic.Number.Dyadic

namespace Infographic.Number

set_option autoImplicit false

/-- A positive decimal `0.d₁d₂… * 10 ^ point`, digits as characters. -/
structure Digits where
  digits : List Char
  point : Int
  deriving Repr, DecidableEq

/-- The digit characters of a natural number. -/
def digitsOf (n : Nat) : List Char :=
  Nat.toDigits 10 n

/-- The number of decimal digits of `n`. -/
def width (n : Nat) : Nat :=
  (digitsOf n).length

/-- For `num < den`, the least `k` with `den ≤ num * 10 ^ k`, searched upward. -/
def leadingZeros (den : Nat) : Nat → Nat → Nat
  | 0, _ => 0
  | fuel + 1, num => if den ≤ num then 0 else 1 + leadingZeros den fuel (num * 10)

/-- The `E` with `10 ^ (E - 1) ≤ num / den < 10 ^ E`, for a positive fraction not
below `10 ^ -400`. -/
def decimalPoint (num den : Nat) : Int :=
  if den ≤ num then (width (num / den) : Int)
  else 1 - (leadingZeros den 400 num : Int)

/-- The interval of numbers that round to a float, on a common denominator:
`value`, `low` and `high` over `den`, ends `closed` or not. -/
structure Basin where
  value : Nat
  low : Nat
  high : Nat
  den : Nat
  closed : Bool

/-- The rounding interval of a positive finite number.  Below a power of two the
next smaller float is only half as far away. -/
def Basin.of (d : Dyadic) : Basin :=
  let unit := d.exponent - 2
  let scale := Nat.pow 2 unit.toNat
  let edge := d.mantissa = Nat.pow 2 52 ∧ -1074 < d.exponent
  { value := 4 * d.mantissa * scale
    low := (if edge then 4 * d.mantissa - 1 else 4 * d.mantissa - 2) * scale
    high := (4 * d.mantissa + 2) * scale
    den := Nat.pow 2 (-unit).toNat
    closed := d.mantissa % 2 = 0 }

/-- Whether `k * 10 ^ e` lies in the interval. -/
def Basin.holds (b : Basin) (k : Nat) (e : Int) : Bool :=
  let point := k * Nat.pow 10 e.toNat * b.den
  let up := Nat.pow 10 (-e).toNat
  if b.closed then b.low * up ≤ point && point ≤ b.high * up
  else b.low * up < point && point < b.high * up

/-- The neighbour on the grid of multiples of `10 ^ e` that lies in the interval
and is nearest to the value, the upper one of two equally near. -/
def Basin.nearest (b : Basin) (e : Int) : Option Nat :=
  let num := b.value * Nat.pow 10 (-e).toNat
  let den := b.den * Nat.pow 10 e.toNat
  let below := num / den
  let rest := num % den
  match b.holds below e, b.holds (below + 1) e with
  | true, true => some (if den ≤ 2 * rest then below + 1 else below)
  | true, false => some below
  | false, true => some (below + 1)
  | false, false => none

/-- Try grids of more and more digits. -/
def Basin.search (b : Basin) (point : Int) : Nat → Nat → Option (Nat × Int)
  | 0, _ => none
  | fuel + 1, count =>
      match b.nearest (point - count) with
      | some k => some (k, point - count)
      | none => Basin.search b point fuel (count + 1)

/-- Drop zeros at the end of a digit run. -/
def stripZeros (ds : List Char) : List Char :=
  (ds.reverse.dropWhile (· == '0')).reverse

/-- The shortest digits of a positive finite number. -/
def shortest (d : Dyadic) : Digits :=
  let b := Basin.of d
  match b.search (decimalPoint b.value b.den) 17 1 with
  | some (k, e) =>
      let ds := digitsOf k
      ⟨stripZeros ds, ds.length + e⟩
  | none => ⟨['0'], 1⟩

/-- Write digits without an exponent. -/
def Digits.positional (d : Digits) : List Char :=
  let count := d.digits.length
  if d.point ≤ 0 then '0' :: '.' :: (List.replicate (-d.point).toNat '0' ++ d.digits)
  else if d.point.toNat < count then
    d.digits.take d.point.toNat ++ '.' :: d.digits.drop d.point.toNat
  else d.digits ++ List.replicate (d.point.toNat - count) '0'

/-- A number by its shortest digits, never with an exponent; a zero keeps its
sign. -/
def shortestText (x : Float) : List Char :=
  match decode x with
  | .nan => "NaN".toList
  | .infinite negative => if negative then "-inf".toList else "inf".toList
  | .finite d =>
      let body := if d.mantissa = 0 then ['0'] else (shortest d).positional
      if d.negative then '-' :: body else body

/-- The decimal exponent of the first of the shortest digits; zero for zero. -/
def leadingExponent (x : Float) : Int :=
  match decode x with
  | .finite d => if d.mantissa = 0 then 0 else (shortest d).point - 1
  | _ => 0

end Infographic.Number
