/-
# Infographic.Number.Literal -- decimal literals

A literal is a sign, digits with an optional point among them, and an optional
exponent.  `Literal.read` accepts exactly such texts; its value is the nearest
float.  `readCell` reads the text of a cell the way a spreadsheet script does:
blank text is zero, `Infinity` is spelled out, anything else that is no literal is
not a number.
-/
import Infographic.Number.Dyadic
import Infographic.Text.Blank

namespace Infographic.Number

set_option autoImplicit false

/-- Whether a character is one of the ten ASCII digits. -/
def isDigit (c : Char) : Bool :=
  '0' ≤ c && c ≤ '9'

/-- The number written by a run of digits. -/
def digitsValue (ds : List Char) : Nat :=
  ds.foldl (fun n c => 10 * n + (c.toNat - '0'.toNat)) 0

/-- A decimal literal, taken apart. -/
structure Literal where
  negative : Bool
  whole : List Char
  fraction : List Char
  exponent : Int
  deriving Repr, DecidableEq

namespace Literal

/-- An optional sign, and what follows it. -/
def readSign : List Char → Bool × List Char
  | '-' :: rest => (true, rest)
  | '+' :: rest => (false, rest)
  | rest => (false, rest)

/-- A signed run of at least one digit, and nothing else. -/
def readInteger (cs : List Char) : Option Int :=
  let (negative, ds) := readSign cs
  if ds.isEmpty || !ds.all isDigit then none
  else
    let n : Int := digitsValue ds
    some (if negative then -n else n)

/-- What may follow the digits of a literal: nothing, or an exponent. -/
def readExponent : List Char → Option Int
  | [] => some 0
  | 'e' :: rest => readInteger rest
  | 'E' :: rest => readInteger rest
  | _ => none

/-- A point and the digits behind it, if there is a point. -/
def readFraction : List Char → List Char × List Char
  | '.' :: rest => (rest.takeWhile isDigit, rest.dropWhile isDigit)
  | rest => ([], rest)

/-- Read a literal that fills the whole text. -/
def read (cs : List Char) : Option Literal :=
  let (negative, unsigned) := readSign cs
  let whole := unsigned.takeWhile isDigit
  let (fraction, rest) := readFraction (unsigned.dropWhile isDigit)
  if whole.isEmpty && fraction.isEmpty then none
  else (readExponent rest).map fun exponent => ⟨negative, whole, fraction, exponent⟩

/-- All digits as one integer. -/
def mantissa (l : Literal) : Nat :=
  digitsValue (l.whole ++ l.fraction)

/-- The power of ten that integer is to be multiplied by. -/
def scale (l : Literal) : Int :=
  l.exponent - l.fraction.length

/-- The nearest float.  Literals beyond every float are infinite and those below
half of the least positive one are zero, whatever their exponent. -/
def magnitude (l : Literal) : Float :=
  let m := l.mantissa
  let top := (Nat.toDigits 10 m).length + l.scale
  if m = 0 then 0.0
  else if 310 < top then infinity
  else if top < -330 then 0.0
  else if l.scale < 0 then Float.ofScientific m true l.scale.natAbs
  else Float.ofScientific m false l.scale.natAbs

def toFloat (l : Literal) : Float :=
  withSign l.negative l.magnitude

end Literal

/-- The nearest float of a text that is a literal. -/
def readLiteral (cs : List Char) : Option Float :=
  (Literal.read cs).map Literal.toFloat

/-- A literal, or one of the words for the special values in any letter case, with
an optional sign. -/
def readExtended (cs : List Char) : Option Float :=
  let (negative, unsigned) := Literal.readSign cs
  let word := String.ofList (unsigned.map Char.toLower)
  if word = "inf" ∨ word = "infinity" then some (withSign negative infinity)
  else if word = "nan" then some nan
  else readLiteral cs

/-- The number a cell text stands for. -/
def readCell (cs : List Char) : Float :=
  let t := Text.trim cs
  if t.isEmpty then 0.0
  else if t = "Infinity".toList ∨ t = "+Infinity".toList then infinity
  else if t = "-Infinity".toList then -infinity
  else (readLiteral t).getD nan

end Infographic.Number
