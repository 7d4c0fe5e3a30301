/-
# Infographic.Geometry.TransformList -- the transform attribute

A transform list is a list of named maps with their numbers in brackets.  A turn about
a point stands for three maps.  The list is read up to its first fault; the matrix of
the whole list is the product of the maps, and the identity when there is a fault.
-/
import Infographic.Attribute.Number
import Infographic.Geometry.Point
import Infographic.Number.Numeral

namespace Infographic.Geometry

set_option autoImplicit false

open Attribute (listNumber? takeNumbers skipSpaces expect takeWord items)

/-- Whether the bracket closes here. -/
def closes (cs : List Char) : Bool :=
  (skipSpaces cs).head? == some ')'

/-- Take one number, and some more unless the bracket closes behind it. -/
def takeOptional (count : Nat) (cs : List Char) : Option (List Float × List Char) := do
  let (x, rest) ← listNumber? cs
  if closes rest then some ([x], rest)
  else
    let (more, rest) ← takeNumbers count rest
    some (x :: more, rest)

/-- The maps of one item, from its name and what follows the bracket. -/
def takeMaps (name : String) (cs : List Char) : Option (List (Matrix Float) × List Char) := do
  match name with
  | "matrix" =>
      match ← takeNumbers 6 cs with
      | ([a, b, c, d, e, f], rest) => some ([⟨a, b, c, d, e, f⟩], rest)
      | _ => none
  | "translate" =>
      match ← takeOptional 1 cs with
      | ([x], rest) => some ([.shift ⟨x, 0.0⟩], rest)
      | ([x, y], rest) => some ([.shift ⟨x, y⟩], rest)
      | _ => none
  | "scale" =>
      match ← takeOptional 1 cs with
      | ([x], rest) => some ([.scaling x x], rest)
      | ([x, y], rest) => some ([.scaling x y], rest)
      | _ => none
  | "rotate" =>
      match ← takeOptional 2 cs with
      | ([angle], rest) => some ([.rotation angle], rest)
      | ([angle, x, y], rest) =>
          some ([.shift ⟨x, y⟩, .rotation angle, .shift ⟨-x, -y⟩], rest)
      | _ => none
  | "skewX" => (listNumber? cs).map fun (angle, rest) => ([.skewX angle], rest)
  | "skewY" => (listNumber? cs).map fun (angle, rest) => ([.skewY angle], rest)
  | _ => none

/-- Take one item of a transform list. -/
def takeTransform (cs : List Char) : Option (List (Matrix Float) × List Char) := do
  let (name, rest) := takeWord (skipSpaces cs)
  let (maps, rest) ← takeMaps name (← expect '(' (skipSpaces rest))
  let rest ← expect ')' (skipSpaces rest)
  match skipSpaces rest with
  | ',' :: rest => some (maps, rest)
  | rest => some (maps, rest)

/-- The maps of a transform list, and what is left of the text. -/
def readTransforms (s : String) : List (Matrix Float) × List Char :=
  let (maps, rest) := items takeTransform s.toList
  (maps.flatten, skipSpaces rest)

/-- The maps of a transform list, in order, up to its first fault. -/
def transformList (s : String) : List (Matrix Float) :=
  (readTransforms s).1

/-- A transform list as one map; the identity when it has a fault. -/
def transformOf (s : String) : Matrix Float :=
  match readTransforms s with
  | (maps, []) => maps.foldl (· * ·) .identity
  | _ => .identity

end Infographic.Geometry

namespace Infographic.Matrix

set_option autoImplicit false

/-- A map as style sheets write it. -/
def toCss (m : Matrix Float) : String :=
  "matrix(" ++ ",".intercalate (m.entries.map Number.plainText) ++ ")"

end Infographic.Matrix
