/-
# Infographic.Message.Reader -- reading data messages

A message is a record whose fields may all be left out; of a column the label and the
type must be there, of a format the name.  Unknown types count as other.
-/
import Infographic.Json.Value
import Infographic.Message.Basic

namespace Infographic.Message

set_option autoImplicit false

open Json

/-- The word of an enumerated value: a string, or a record with that one field and
nothing in it. -/
def word? : Value → Option String
  | .text s => s
  | .object [(some s, .null)] => some s
  | _ => none

def readKind (v : Value) : Option DeclaredKind :=
  (word? v).map fun s =>
    if s = "string" then .string
    else if s = "number" then .number
    else if s = "date" then .date
    else .other

def readFormat (v : Value) : Option DeclaredFormat := do
  match ← v.fields? ["name", "width", "precision", "formatString"] with
  | [name, width, precision, text] =>
      return {
        name := ← required Value.text? name
        width := ← orElse 0 (Value.natBelow? (Nat.pow 2 32)) width
        precision := ← orElse 0 (Value.natBelow? (Nat.pow 2 32)) precision
        text := ← orElse "" Value.text? text }
  | _ => none

def readColumn (v : Value) : Option MessageColumn := do
  match ← v.fields? ["name", "label", "type", "usage", "aggregation", "format"] with
  | [name, label, kind, usage, aggregation, format] =>
      return {
        name := ← orElse "" Value.text? name
        label := ← required Value.text? label
        kind := ← required readKind kind
        usage := ← orElse none (Value.optional? Value.text?) usage
        aggregation := ← orElse none (Value.optional? Value.text?) aggregation
        format := ← orElse none (Value.optional? readFormat) format }
  | _ => none

/-- A cell: a number, a string, or `null` for a missing one. -/
def readCell : Value → Option (Option Cell)
  | .null => some none
  | .number n => n.toFloat?.map fun x => some (.number x)
  | .text s => s.map fun s => some (.text s)
  | _ => none

/-- A list, item by item. -/
def readList {α : Type} (read : Value → Option α) (v : Value) : Option (List α) :=
  v.list?.bind fun items => items.mapM read

def readMessage (v : Value) : Option Message := do
  match ← v.fields?
      ["version", "resultName", "rowCount", "availableRowCount", "data", "columns"] with
  | [version, resultName, rowCount, availableRowCount, data, columns] =>
      return {
        version := ← orElse "" Value.text? version
        resultName := ← orElse "" Value.text? resultName
        rowCount := ← orElse 0 (Value.natBelow? (Nat.pow 2 64)) rowCount
        availableRowCount := ← orElse 0 (Value.natBelow? (Nat.pow 2 64)) availableRowCount
        rows := ← orElse [] (readList (readList readCell)) data
        columns := ← orElse [] (readList readColumn) columns }
  | _ => none

/-- Read a message text. -/
def ofJson? (text : String) : Option Message :=
  (Json.read text).bind readMessage

end Infographic.Message
