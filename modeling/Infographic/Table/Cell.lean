/-
# Infographic.Table.Cell -- cell values

A cell holds a number or a text.  A cell that is missing, in a short row or behind
the end of one, is `none : Option Cell`.
-/
import Infographic.Number.Literal
import Infographic.Number.Numeral

namespace Infographic

set_option autoImplicit false

/-- The value of a table cell. -/
inductive Cell where
  | number (x : Float)
  | text (s : String)

namespace Cell

/-- The number in a number cell. -/
def number? : Cell → Option Float
  | .number x => some x
  | .text _ => none

/-- The number a cell stands for. -/
def toNumber : Cell → Float
  | .number x => x
  | .text s => Number.readCell s.toList

/-- The plain text of a cell. -/
def toText : Cell → String
  | .number x => Number.plainText x
  | .text s => s

/-- The reading of an optional cell as a number; a missing cell is not a number. -/
def reading : Option Cell → Float
  | some c => c.toNumber
  | none => Number.nan

end Cell

end Infographic
