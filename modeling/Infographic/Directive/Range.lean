/-
# Infographic.Directive.Range -- numeric ranges

A range is written `1..2`, `1 to 2`, `1;2` or `1 2`, with underscores for spaces
where spaces are not allowed.  The separators are tried in that order; a text
without one is a single number.  Ends that are no numbers are not-a-number.
-/
import Infographic.Number.Literal
import Infographic.Text.Cut

namespace Infographic.Directive

set_option autoImplicit false

open Infographic.Number (readCell)

/-- One number, or two. -/
inductive Range where
  | single (x : Float)
  | pair (low high : Float)

namespace Range

/-- Both ends; a single number stands for both. -/
def ends : Range → Float × Float
  | .single x => (x, x)
  | .pair low high => (low, high)

def isFinite (r : Range) : Bool :=
  r.ends.1.isFinite && r.ends.2.isFinite

/-- The words that separate the ends of a range, in the order they are tried. -/
def separators : List (List Char) :=
  ["..".toList, " to ".toList, ";".toList]

/-- Read a range whose underscores are already spaces. -/
def ofSpaced (cs : List Char) : Range :=
  match separators.findSome? (fun word => Text.cutAt word cs) with
  | some (low, high) => .pair (readCell low) (readCell high)
  | none =>
      match Text.cutWhere Text.isBlank cs with
      | some (low, high) => .pair (readCell low) (readCell high)
      | none => .single (readCell cs)

/-- Read a range. -/
def ofText (cs : List Char) : Range :=
  ofSpaced (Text.trim (cs.map fun c => if c = '_' then ' ' else c))

end Range

end Infographic.Directive
