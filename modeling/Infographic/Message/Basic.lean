/-
# Infographic.Message.Basic -- data messages

A data message brings the rows of a table and describes its columns.
-/
import Infographic.Table.Cell

namespace Infographic

set_option autoImplicit false

/-- The declared kind of a message column. -/
inductive DeclaredKind where
  | string
  | number
  | date
  | other
  deriving Repr, DecidableEq

/-- A display format as declared, such as `COMMA12.2`. -/
structure DeclaredFormat where
  name : String
  width : Nat
  precision : Nat
  text : String
  deriving Repr, DecidableEq

/-- The description of one column. -/
structure MessageColumn where
  name : String
  label : String
  kind : DeclaredKind
  usage : Option String
  aggregation : Option String
  format : Option DeclaredFormat
  deriving Repr, DecidableEq

/-- A data message. -/
structure Message where
  version : String
  resultName : String
  rowCount : Nat
  availableRowCount : Nat
  rows : List (List (Option Cell))
  columns : List MessageColumn

/-- The labels of the columns. -/
def Message.labels (m : Message) : List String :=
  m.columns.map MessageColumn.label

end Infographic
