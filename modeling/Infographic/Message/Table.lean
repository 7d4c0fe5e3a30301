/-
# Infographic.Message.Table -- the table of a message

The rows of a message under the labels of its columns, every column cast to its
declared kind and given its standard and compact display format.

Declared formats go by how their name begins; a name that says nothing is a locale number
with the declared precision.  Columns that are not numeric, and columns without a format,
show texts as they are.
-/
import Infographic.Message.Basic
import Infographic.Table.Basic

namespace Infographic

set_option autoImplicit false

/-! ## Declared formats -/

/-- Names that stand for others. -/
def DeclaredFormat.fullName (name : String) : String :=
  if name = "DOLLAR" then "NLMNLUSD"
  else if name = "EURO" then "NLMNLEUR"
  else if name = "POUND" then "NLMNLGBP"
  else if name = "WON" then "NLMNLCNY"
  else if name = "YEN" then "NLMNLJPY"
  else name

namespace DisplayFormat

/-- The rest of a name that begins with `word`. -/
def nameAfter (word : String) (name : String) : Option String :=
  (Text.afterWord word.toList name.toList).map String.ofList

/-- Whether a name begins with `word`. -/
def begins (word : String) (name : String) : Bool :=
  (nameAfter word name).isSome

/-- A locale number with the declared precision; in a compact format three significant
digits, abbreviated. -/
def declaredNumber (f : DeclaredFormat) (compact : Bool) (locale : Locale) : NumberFormat :=
  { NumberFormat.plain locale with
    minFraction := some f.precision
    maxFraction := some f.precision
    compact
    maxSignificant := if compact then some 3 else none }

/-- The display format of a declared format. -/
def ofDeclared (f : DeclaredFormat) (compact : Bool) (locale : Locale) : DisplayFormat :=
  let number := declaredNumber f compact locale
  let name := DeclaredFormat.fullName f.name
  match nameAfter "NLMNI" name with
  | some lead => .number lead number
  | none =>
      if begins "TIME" name then .time
      else if begins "HOUR" name then .hours (NumberFormat.plain locale)
      else if begins "HHMM" name then .hoursMinutes
      else if begins "MMSS" name then .minutesSeconds
      else
        match nameAfter "NLMNL" name with
        | some code => .number "" { number with style := .currency code }
        | none =>
            if begins "PERCENT" name then .number "" { number with style := .percent }
            else if begins "F" name then .number "" { number with grouped := false }
            else if begins "BEST" name then
              .number "" { number with
                maxFraction := none
                maxSignificant := some (if compact then 3 else max f.width 1) }
            else .number "" number

/-- The display format of a message column. -/
def ofColumn (c : MessageColumn) (compact : Bool) (locale : Locale) : DisplayFormat :=
  match c.format, c.kind with
  | some f, .number => ofDeclared f compact locale
  | _, _ => .text

end DisplayFormat

/-! ## The table -/

/-- The kind of column a declared kind asks for; the others keep the inferred one. -/
def DeclaredKind.toColumnKind? : DeclaredKind → Option ColumnKind
  | .string => some .string
  | .number => some .number
  | .date => some .date
  | .other => none

namespace Table

/-- Cast a column to its declared kind. -/
def castDeclared (t : Table) (c : MessageColumn) : Table :=
  match c.kind.toColumnKind? with
  | some kind => t.cast (.name c.label) kind
  | none => t

/-- The display formats of the columns of a message, by label. -/
def declaredFormats (m : Message) (compact : Bool) (locale : Locale) :
    List (String × DisplayFormat) :=
  m.columns.map fun c => (c.label, DisplayFormat.ofColumn c compact locale)

/-- The table of a message. -/
def ofMessage (m : Message) (locale : Locale) : Table :=
  let t := m.columns.foldl castDeclared (Table.ofRows m.rows m.labels)
  let t := t.setFormats (declaredFormats m false locale) false
  t.setFormats (declaredFormats m true locale) true

end Table

end Infographic
