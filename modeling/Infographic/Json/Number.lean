/-
# Infographic.Json.Number -- numbers in messages

A number is read digit by digit into an unsigned 64-bit significand and a power of
ten; digits past the range of the significand only move the power.  Whole numbers
that fit stay whole.  Everything else becomes a float by one multiplication with or
division by a power of ten, so the last bit can differ from that of the nearest
float.  A result past every float is out of range.
-/
import Infographic.Number.Dyadic
import Infographic.Number.Literal

namespace Infographic.Json

set_option autoImplicit false

open Infographic.Number (isDigit digitsValue withSign)

/-- A number in a message. -/
inductive Numeric where
  /-- A whole number below `2 ^ 64`. -/
  | unsigned (n : Nat)
  /-- The whole number `-n`, with `0 < n ≤ 2 ^ 63`. -/
  | negative (n : Nat)
  | float (x : Float)
  | outOfRange

/-- The digits of a number, as written. -/
structure Lexeme where
  negative : Bool
  whole : List Char
  /-- Digits behind the point. -/
  fraction : Option (List Char)
  /-- Sign and digits of the power of ten; `true` is a minus. -/
  exponent : Option (Bool × List Char)

namespace Lexeme

/-- The whole digits: a zero alone, or digits that do not begin with zero. -/
def readWhole : List Char → Option (List Char × List Char)
  | '0' :: rest =>
      match rest with
      | c :: _ => if isDigit c then none else some (['0'], rest)
      | [] => some (['0'], rest)
  | cs =>
      let ds := cs.takeWhile isDigit
      if ds.isEmpty then none else some (ds, cs.dropWhile isDigit)

def readFraction : List Char → Option (Option (List Char) × List Char)
  | '.' :: rest =>
      let ds := rest.takeWhile isDigit
      if ds.isEmpty then none else some (some ds, rest.dropWhile isDigit)
  | rest => some (none, rest)

/-- The sign and digits behind an exponent mark. -/
def readPower (cs : List Char) : Option (Option (Bool × List Char) × List Char) :=
  let (negative, unsigned) := Number.Literal.readSign cs
  let ds := unsigned.takeWhile isDigit
  if ds.isEmpty then none else some (some (negative, ds), unsigned.dropWhile isDigit)

def readExponent : List Char → Option (Option (Bool × List Char) × List Char)
  | 'e' :: rest => readPower rest
  | 'E' :: rest => readPower rest
  | rest => some (none, rest)

/-- Read the longest number at the start of a text. -/
def read (cs : List Char) : Option (Lexeme × List Char) := do
  let (negative, unsigned) : Bool × List Char :=
    match cs with
    | '-' :: rest => (true, rest)
    | _ => (false, cs)
  let (whole, rest) ← readWhole unsigned
  let (fraction, rest) ← readFraction rest
  let (exponent, rest) ← readExponent rest
  return (⟨negative, whole, fraction, exponent⟩, rest)

/-! ## The value -/

/-- Take digits into the significand while it stays below `2 ^ 64`; also how many
digits are left over. -/
def accumulate : Nat → List Char → Nat × Nat
  | n, [] => (n, 0)
  | n, c :: rest =>
      let next := n * 10 + (c.toNat - '0'.toNat)
      if Nat.pow 2 64 ≤ next then (n, rest.length + 1) else accumulate next rest

/-- Scale by a power of ten: at most `10 ^ 308` at a time, nothing further once the
value is zero; `none` past every float. -/
def scaleFloat : Nat → Float → Int → Option Float
  | 0, f, _ => some f
  | fuel + 1, f, e =>
      if e.natAbs ≤ 308 then
        let p := Float.ofScientific 1 false e.natAbs
        if 0 ≤ e then
          let g := f * p
          if g.isInf then none else some g
        else some (f / p)
      else if f == 0.0 then some f
      else if 0 ≤ e then none
      else scaleFloat fuel (f / 1e308) (e + 308)

/-- A significand times a power of ten. -/
def scaled (negative : Bool) (significand : Nat) (e : Int) : Numeric :=
  match scaleFloat (e.natAbs / 308 + 1) (Float.ofNat significand) e with
  | some f => .float (withSign negative f)
  | none => .outOfRange

/-- The value of a number. -/
def value (l : Lexeme) : Numeric :=
  let (whole, dropped) := accumulate 0 l.whole
  if l.fraction.isNone && l.exponent.isNone && dropped == 0 then
    if !l.negative then .unsigned whole
    else if 0 < whole ∧ whole ≤ Nat.pow 2 63 then .negative whole
    else .float (withSign true (Float.ofNat whole))
  else
    let ds := l.fraction.getD []
    let (significand, left) := accumulate whole ds
    let e : Int := (dropped : Int) - ((ds.length - left : Nat) : Int)
    match l.exponent with
    | none => scaled l.negative significand e
    | some (down, power) =>
        let p := digitsValue power
        if Nat.pow 2 31 ≤ p then
          if significand ≠ 0 ∧ !down then .outOfRange
          else .float (withSign l.negative 0.0)
        else scaled l.negative significand (if down then e - p else e + p)

end Lexeme

/-- The float a number stands for, if it is in range. -/
def Numeric.toFloat? : Numeric → Option Float
  | .unsigned n => some (Float.ofNat n)
  | .negative n => some (-(Float.ofNat n))
  | .float x => some x
  | .outOfRange => none

end Infographic.Json
