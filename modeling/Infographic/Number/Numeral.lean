/-
# Infographic.Number.Numeral -- decimal numerals and the plain text of a number

A numeral is a run of whole digits and a run of fraction digits; its text has a
point exactly when there is a fraction.  `Numeral.ofPlaces` writes a number with a
given number of fraction digits, rounded in exact arithmetic, a half to the even
neighbour.  `Numeral.trim` drops zeros at the end of the fraction, down to a least
number of fraction digits.

`plain` is the text written for a number wherever no display format applies: whole
numbers below `10 ^ 21` with all their digits, other numbers by the fewest digits that
read back, never with an exponent.  Zero has no sign.
-/
import Infographic.Number.Shortest

namespace Infographic.Number

set_option autoImplicit false

/-- An unsigned decimal numeral, digits as characters. -/
structure Numeral where
  whole : List Char
  fraction : List Char
  deriving Repr, DecidableEq

namespace Numeral

/-- The text of a numeral: a point only before a fraction. -/
def text (n : Numeral) : List Char :=
  match n.fraction with
  | [] => n.whole
  | ds => n.whole ++ '.' :: ds

/-- The numeral of `units / 10 ^ places`. -/
def ofUnits (units places : Nat) : Numeral :=
  let ds := digitsOf units
  let padded := List.replicate (places + 1 - ds.length) '0' ++ ds
  ⟨padded.take (padded.length - places), padded.drop (padded.length - places)⟩

/-- `num / den` rounded to an integer, a half to the even neighbour. -/
def roundEven (num den : Nat) : Nat :=
  let whole := num / den
  let rest := num % den
  if den < 2 * rest ∨ (2 * rest = den ∧ whole % 2 = 1) then whole + 1 else whole

/-- A finite magnitude with `places` fraction digits. -/
def ofPlaces (d : Dyadic) (places : Nat) : Numeral :=
  ofUnits (roundEven (d.numerator * Nat.pow 10 places) d.denominator) places

/-- Drop zeros at the end of the fraction beyond its first `least` digits. -/
def trim (least : Nat) (n : Numeral) : Numeral :=
  ⟨n.whole, n.fraction.take least ++ stripZeros (n.fraction.drop least)⟩

end Numeral

/-- The magnitude of a finite number with `places` fraction digits; a number that is
not finite has none. -/
def toPlaces? (x : Float) (places : Nat) : Option Numeral :=
  match decode x with
  | .finite d => some (Numeral.ofPlaces d places)
  | _ => none

/-! ## Plain text -/

/-- The plain text of a finite number. -/
def Dyadic.plain (d : Dyadic) : List Char :=
  let magnitude :=
    if d.numerator % d.denominator = 0 ∧ d.numerator / d.denominator < Nat.pow 10 21 then
      digitsOf (d.numerator / d.denominator)
    else (shortest d).positional
  if d.negative ∧ d.mantissa ≠ 0 then '-' :: magnitude else magnitude

/-- The plain text of a number. -/
def plain (x : Float) : List Char :=
  match decode x with
  | .nan => "NaN".toList
  | .infinite negative => if negative then "-Infinity".toList else "Infinity".toList
  | .finite d => d.plain

/-- The plain text of a number, as a string. -/
def plainText (x : Float) : String :=
  String.ofList (plain x)

end Infographic.Number
