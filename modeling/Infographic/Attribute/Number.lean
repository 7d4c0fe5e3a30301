/-
# Infographic.Attribute.Number -- numbers in attribute values

Attribute values are written as numbers, words and punctuation with spaces between
them.  A reader takes what it reads from the front of a text and returns the rest, or
fails.  A number in a list takes the spaces behind it along, and then one comma.

A length is a number with an optional unit; only the number counts.  A point list is
read up to its first fault.
-/
import Infographic.Number.Literal
import Infographic.Text.Blank
import Infographic.Text.Cut

namespace Infographic.Attribute

set_option autoImplicit false

open Infographic.Number (isDigit Literal)

/-- A space inside an attribute value. -/
def isSpace (c : Char) : Bool :=
  c == ' ' || c == '\t' || c == '\n' || c == '\r'

def skipSpaces (cs : List Char) : List Char :=
  cs.dropWhile isSpace

/-- Skip spaces and then one comma. -/
def skipSeparator (cs : List Char) : List Char :=
  match skipSpaces cs with
  | ',' :: rest => rest
  | rest => rest

/-- Take one given character. -/
def expect (c : Char) : List Char → Option (List Char)
  | [] => none
  | d :: rest => if d = c then some rest else none

/-- Whether a character can stand in a word. -/
def isWordChar (c : Char) : Bool :=
  c.isAlphanum || c == '-' || c == '_'

/-- Take a word, which may be empty. -/
def takeWord (cs : List Char) : String × List Char :=
  (String.ofList (cs.takeWhile isWordChar), cs.dropWhile isWordChar)

/-! ## Numbers -/

/-- Take an optional sign. -/
def takeSign : List Char → List Char × List Char
  | [] => ([], [])
  | c :: rest => if c = '+' ∨ c = '-' then ([c], rest) else ([], c :: rest)

/-- Take an optional point and the digits behind it. -/
def takeFraction : List Char → List Char × List Char
  | '.' :: rest => ('.' :: rest.takeWhile isDigit, rest.dropWhile isDigit)
  | rest => ([], rest)

/-- Take an optional exponent.  An `e` before `m` or `x` belongs to a unit. -/
def takeExponent : List Char → Option (List Char × List Char)
  | [] => some ([], [])
  | c :: rest =>
      if c ≠ 'e' ∧ c ≠ 'E' then some ([], c :: rest)
      else
        match rest with
        | [] => none
        | d :: _ =>
            if d = 'm' ∨ d = 'x' then some ([], c :: rest)
            else
              let (sign, ds) := takeSign rest
              if sign.isEmpty && !isDigit d then none
              else some (c :: sign ++ ds.takeWhile isDigit, ds.dropWhile isDigit)

/-- Take a finite number, after spaces. -/
def number? (cs : List Char) : Option (Float × List Char) := do
  let (sign, unsigned) := takeSign (skipSpaces cs)
  let (fraction, rest) := takeFraction (unsigned.dropWhile isDigit)
  let (exponent, rest) ← takeExponent rest
  let literal ← Literal.read (sign ++ unsigned.takeWhile isDigit ++ fraction ++ exponent)
  if literal.toFloat.isFinite then some (literal.toFloat, rest) else none

/-- Take a number of a list. -/
def listNumber? (cs : List Char) : Option (Float × List Char) :=
  (number? cs).map fun (x, rest) => (x, skipSeparator rest)

/-- Take some numbers of a list. -/
def takeNumbers : Nat → List Char → Option (List Float × List Char)
  | 0, cs => some ([], cs)
  | count + 1, cs => do
      let (x, cs) ← listNumber? cs
      let (more, cs) ← takeNumbers count cs
      some (x :: more, cs)

/-- Take an integer of 32 bits, after spaces. -/
def integer? (cs : List Char) : Option (Int × List Char) := do
  let (sign, ds) := takeSign (skipSpaces cs)
  let n ← Literal.readInteger (sign ++ ds.takeWhile isDigit)
  if -2147483648 ≤ n ∧ n < 2147483648 then some (n, ds.dropWhile isDigit) else none

/-- Take an integer of a list. -/
def listInteger? (cs : List Char) : Option (Int × List Char) :=
  (integer? cs).map fun (n, rest) => (n, skipSeparator rest)

/-- Take a number of a list, or a percentage as a part of one. -/
def listRatio? (cs : List Char) : Option (Float × List Char) :=
  (number? cs).map fun (x, rest) =>
    match rest with
    | '%' :: rest => (x / 100.0, skipSeparator rest)
    | rest => (x, skipSeparator rest)

/-! ## Repetition -/

/-- Take items until there is none to take: the items and what is left. -/
def takeItems {α : Type} (item? : List Char → Option (α × List Char)) :
    Nat → List Char → List α × List Char
  | 0, cs => ([], cs)
  | fuel + 1, cs =>
      match item? cs with
      | none => ([], cs)
      | some (a, rest) =>
          let (more, left) := takeItems item? fuel rest
          (a :: more, left)

/-- Take as many items as there are.  An item takes a character at least, so there
are no more of them than characters. -/
def items {α : Type} (item? : List Char → Option (α × List Char)) (cs : List Char) :
    List α × List Char :=
  takeItems item? (cs.length + 1) cs

/-! ## Lengths and point lists -/

/-- The units a length may have. -/
def units : List (List Char) :=
  ["", "%", "em", "ex", "px", "in", "cm", "mm", "pt", "pc"].map String.toList

/-- The number of a length. -/
def length? (s : String) : Option Float :=
  match number? (Text.trim s.toList) with
  | some (x, unit) => if units.contains unit then some x else none
  | none => none

/-- The first length of a list with spaces and commas between its parts. -/
def firstLength? (s : String) : Option Float :=
  ((Text.splitWhere (fun c => c == ' ' || c == ',') s.toList).find? fun part =>
    !part.isEmpty).bind fun part => length? (String.ofList part)

/-- Take two numbers. -/
def pair? (cs : List Char) : Option ((Float × Float) × List Char) := do
  let (x, cs) ← listNumber? cs
  let (y, cs) ← listNumber? cs
  some ((x, y), cs)

/-- The coordinate pairs of a point list. -/
def pairs (s : String) : List (Float × Float) :=
  (items pair? s.toList).1

end Infographic.Attribute
