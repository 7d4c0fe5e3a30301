/-
# Infographic.Locale.NumberFormat -- numbers for readers

A number format rounds a number to fraction digits or to significant digits, groups
its whole digits, and adds the sign, currency or percent affixes of a locale.  Where
significant digits are asked for they win over fraction digits.  A compact format
abbreviates by powers of a thousand.
-/
import Infographic.Locale.Grouping
import Infographic.Number.Numeral

namespace Infographic

set_option autoImplicit false

open Infographic.Number

/-! ## Rounding to decimal places -/

namespace Number

/-- Round half away from zero at `places` decimal places, negative places being left
of the point, by scaling; `none` when a scaled value is not finite. -/
def roundTo (x : Float) (places : Int) : Option Float :=
  let scale := power 10.0 places.natAbs
  let y := if 0 ≤ places then round (x * scale) / scale else round (x / scale) * scale
  if y.isFinite then some y else none

/-- A finite magnitude rounded to `places` decimal places.  A number that cannot be
scaled is rounded by its exact decimal expansion. -/
def roundedNumeral (x : Float) (places : Int) : Numeral :=
  ((toPlaces? ((roundTo x places).getD x) places.toNat).getD ⟨['0'], []⟩)

/-- A magnitude with at least `least` and at most `most` fraction digits, of which
there are never more than 20. -/
def fixed (x : Float) (least most : Nat) : Numeral :=
  (roundedNumeral x (min most 20)).trim least

/-- A magnitude with at most `count` significant digits, between 1 and 21. -/
def significant (x : Float) (count : Nat) : Numeral :=
  if x == 0.0 then ⟨['0'], []⟩
  else
    let count : Int := max 1 (min count 21)
    (roundedNumeral x (count - 1 - leadingExponent x)).trim 0

/-- The float nearest to a numeral. -/
def Numeral.toFloat (n : Numeral) : Float :=
  Literal.toFloat ⟨false, n.whole, n.fraction, 0⟩

end Number

/-! ## Formats -/

/-- What kind of quantity a number is. -/
inductive NumberStyle where
  | decimal
  | currency (code : String)
  | percent
  deriving Repr, DecidableEq

/-- How a number is written. -/
structure NumberFormat where
  locale : Locale
  style : NumberStyle
  minFraction : Option Nat
  maxFraction : Option Nat
  maxSignificant : Option Nat
  grouped : Bool
  compact : Bool
  deriving Repr, DecidableEq

namespace NumberFormat

/-- The decimal format of a locale. -/
def plain (locale : Locale) : NumberFormat :=
  { locale, style := .decimal, minFraction := none, maxFraction := none
    maxSignificant := none, grouped := true, compact := false }

/-- The least and the most fraction digits of a style. -/
def styleFraction : NumberStyle → Nat × Nat
  | .decimal => (0, 3)
  | .percent => (0, 0)
  | .currency code => if code = "JPY" then (0, 0) else (2, 2)

/-- The least and the most fraction digits, where the format does not say those of
its style; the most is never below the least. -/
def fractionDigits (f : NumberFormat) : Nat × Nat :=
  let (low, high) := styleFraction f.style
  let low := f.minFraction.getD low
  (low, max low (f.maxFraction.getD high))

/-- Write a numeral with the separators of the locale. -/
def localized (f : NumberFormat) (n : Numeral) : List Char :=
  let whole := if f.grouped then Grouping.group f.locale.numbers n.whole else n.whole
  match n.fraction with
  | [] => whole
  | ds => whole ++ f.locale.numbers.mark.toList ++ ds

/-- The numeral of a magnitude without abbreviation. -/
def plainNumeral (f : NumberFormat) (x : Float) : Numeral :=
  match f.maxSignificant with
  | some count => significant x count
  | none => fixed x f.fractionDigits.1 f.fractionDigits.2

/-- The numeral of a magnitude that has been divided by its unit. -/
def compactNumeral (f : NumberFormat) (x : Float) : Numeral :=
  match f.maxSignificant with
  | some count => significant x count
  | none => if x < 100.0 then significant x 2 else fixed x 0 0

/-- The power of a thousand a magnitude reaches, at most the fourth. -/
def magnitudeOf (x : Float) : Nat :=
  [1, 2, 3, 4].takeWhile (fun k => power 10.0 (3 * k) ≤ x) |>.length

/-- A magnitude in units of a power of a thousand, with the unit.  Where the locale
has no unit the full number is written. -/
def atLevel (f : NumberFormat) (x : Float) (level : Nat) : Numeral × String :=
  let unit := f.locale.units.unit level
  (f.compactNumeral (if unit.isEmpty then x else x / power 10.0 (3 * level)), unit)

/-- Whether a numeral has been rounded up to a thousand of its units. -/
def carries (written : Numeral × String) : Bool :=
  !written.2.isEmpty && 1000.0 ≤ written.1.toFloat

/-- Abbreviate by the power `4 - left` of a thousand, or by the next one if that one
carries. -/
def abbreviateFrom (f : NumberFormat) (x : Float) : Nat → Numeral × String
  | 0 => f.atLevel x 4
  | left + 1 =>
      let written := f.atLevel x (3 - left)
      if carries written then abbreviateFrom f x left else written

/-- Abbreviate a magnitude. -/
def abbreviate (f : NumberFormat) (x : Float) : Numeral × String :=
  f.abbreviateFrom x (4 - magnitudeOf x)

/-- The digits of a magnitude, and its unit. -/
def body (f : NumberFormat) (x : Float) : List Char :=
  if f.compact then
    let (numeral, unit) := f.abbreviate x
    f.localized numeral ++ unit.toList
  else f.localized (f.plainNumeral x)

/-- Add sign and affixes to a written magnitude. -/
def affixed (f : NumberFormat) (negative : Bool) (digits : List Char) : List Char :=
  let sign := if negative then ['-'] else []
  match f.style with
  | .decimal => sign ++ digits
  | .percent => sign ++ digits ++ f.locale.percentSign.toList
  | .currency code =>
      let symbol := (Locale.currencySymbol code).toList
      let space := Char.ofNat 0xA0
      if f.locale.currencyAfter then sign ++ digits ++ space :: symbol
      else if symbol.all Char.isAlpha then sign ++ symbol ++ space :: digits
      else sign ++ symbol ++ digits

/-- Write a number.  A negative number whose digits are all zero has no sign. -/
def write (f : NumberFormat) (value : Float) : List Char :=
  let x := if f.style = .percent then value * 100.0 else value
  if x.isNaN then f.affixed false "NaN".toList
  else if x.isInf then f.affixed (x < 0.0) ['∞']
  else
    let digits := f.body x.abs
    f.affixed (x < 0.0 && digits.any fun c => isDigit c && c != '0') digits

/-- A written number as a string. -/
def format (f : NumberFormat) (value : Float) : String :=
  String.ofList (f.write value)

end NumberFormat

end Infographic
