/-
# Infographic.Table.Basic -- tables

A table has rows, columns, and an index of the column names.  Cells are looked up by
the column's name, in the index of the row.  A key that addresses no column changes
nothing.
-/
import Infographic.Table.Column
import Infographic.Table.Row

namespace Infographic

set_option autoImplicit false

/-- Rows of cells under columns. -/
structure Table where
  rows : List Row
  columns : List Column
  index : NameIndex

namespace Table

def empty : Table :=
  ⟨[], [], .empty⟩

/-! ## Reading -/

/-- The column names that can be looked up, in order of position. -/
def names (t : Table) : List String :=
  t.index.names

def locate (t : Table) (key : ColumnKey) : Option Nat :=
  t.index.locate t.columns.length key

/-- The column a key addresses. -/
def column? (t : Table) (key : ColumnKey) : Option Column :=
  (t.locate key).bind fun i => t.columns[i]?

def hasColumn (t : Table) (name : String) : Bool :=
  (t.column? (.name name)).isSome

/-- The column with a given number among those of one kind. -/
def columnOfKind? (t : Table) (i : Nat) (kind : ColumnKind) : Option Column :=
  (t.columns.filter fun c => c.kind == kind)[i]?

/-- The cell of a row under the column a key addresses. -/
def get? (t : Table) (row : Nat) (key : ColumnKey) : Option Cell := do
  let r ← t.rows[row]?
  let c ← t.column? key
  r.get? (.name c.name)

/-- The text shown for a cell. -/
def display (t : Table) (row : Nat) (key : ColumnKey) (compact : Bool) : String :=
  match t.column? key with
  | none => failureMark
  | some c =>
      match t.get? row (.name c.name) with
      | none => failureMark
      | some cell => c.write compact cell

/-- The statistics of the column a key addresses. -/
def stats? (t : Table) (key : ColumnKey) : Option Stats :=
  (t.column? key).bind Column.stats

/-! ## Changing -/

/-- Change the column a key addresses. -/
def modifyColumn (t : Table) (key : ColumnKey) (f : Column → Column) : Table :=
  match t.locate key with
  | some i => { t with columns := t.columns.modify i f }
  | none => t

/-- Replace a cell. -/
def set (t : Table) (row : Nat) (key : ColumnKey) (cell : Option Cell) : Table :=
  match t.column? key with
  | some c => { t with rows := t.rows.modify row fun r => r.set (.name c.name) cell }
  | none => t

def setFormat (t : Table) (key : ColumnKey) (compact : Bool) (f : DisplayFormat) : Table :=
  t.modifyColumn key fun c => c.setFormat compact f

/-- Give columns formats, pair by pair. -/
def setFormats (t : Table) (formats : List (String × DisplayFormat)) (compact : Bool) : Table :=
  formats.foldl (fun t e => t.setFormat (.name e.1) compact e.2) t

/-- The readings of the cells under a name, in the order of the rows. -/
def readings (t : Table) (name : String) : List Float :=
  t.rows.map fun r => Cell.reading (r.get? (.name name))

/-- Whether a selection of names takes in a column; an empty selection takes in all. -/
def selects (selection : List String) (c : Column) : Bool :=
  selection.isEmpty || selection.contains c.name

/-- Compute the statistics of the selected number columns, except manual ones. -/
def computeStats (t : Table) (selection : List String) : Table :=
  { t with
    columns := t.columns.map fun c =>
      if selects selection c && c.isComputed then
        { c with stats := some (Stats.ofReadings (t.readings c.name)) }
      else c }

/-- Give a column statistics from outside. -/
def overrideStats (t : Table) (key : ColumnKey) (u : StatsUpdate) : Table :=
  t.modifyColumn key fun c => { c with stats := some ((c.stats.getD .empty).override u) }

/-- Rename a column; a name that another column has is refused. -/
def rename (t : Table) (key : ColumnKey) (name : String) : Table :=
  match t.locate key with
  | none => t
  | some i =>
      match t.columns[i]? with
      | none => t
      | some c =>
          if c.name = name ∨ t.index.has name then t
          else
            { rows := t.rows.map fun r => r.rename (.name c.name) name
              columns := t.columns.set i { c with name }
              index := (t.index.erase c.name).insert name i }

/-- Take out a column. -/
def drop (t : Table) (key : ColumnKey) : Table :=
  match t.locate key with
  | none => t
  | some i =>
      match t.columns[i]? with
      | none => t
      | some c =>
          { rows := t.rows.map fun r => r.delete (.name c.name)
            columns := t.columns.eraseIdx i
            index := (t.index.erase c.name).close i }

/-- Change the cells under a name that are present. -/
def mapCells (t : Table) (name : String) (f : Cell → Cell) : Table :=
  { t with
    rows := t.rows.map fun r =>
      match r.get? (.name name) with
      | some cell => r.set (.name name) (some (f cell))
      | none => r }

/-- Change the kind of a column.  Its cells become texts or numbers; the statistics of
a column of numbers are computed again.  A date column keeps its cells. -/
def cast (t : Table) (key : ColumnKey) (kind : ColumnKind) : Table :=
  match t.column? key with
  | none => t
  | some c =>
      let t := t.modifyColumn key fun c => { c with kind }
      match kind with
      | .string => t.mapCells c.name fun cell => .text cell.toText
      | .number => (t.mapCells c.name fun cell => .number cell.toNumber).computeStats [c.name]
      | .date => t

/-! ## Building -/

/-- The kind a column has by its first cell: texts make a column of strings, anything
else a column of numbers. -/
def kindOf : Option Cell → ColumnKind
  | some (.text _) => .string
  | _ => .number

/-- A table of rows under column names.  Kinds go by the first row. -/
def ofRows (rows : List (List (Option Cell))) (names : List String) : Table :=
  let first := rows.head?.getD []
  let t : Table :=
    { rows := rows.map fun cells => Row.ofCells cells names
      columns := names.zipIdx.map fun (name, i) => Column.plain name (kindOf first[i]?.join)
      index := .ofNames names }
  t.computeStats []

end Table

/-! ## Columns by reference

A column is referred to by its name, or by `@`, `#` or `$` and a number: the column
with that number, from zero, among those of strings, numbers or dates.  What drives a
transform or a style is where the first row's value stands between the least and the
greatest value of its column: 0 at the least, 1 at the greatest. -/

namespace Directive

/-- The kind of column a mark stands for. -/
def kindOfMark : Char → Option ColumnKind
  | '@' => some .string
  | '#' => some .number
  | '$' => some .date
  | _ => none

/-- The kind and number of a positional reference.  The number is a 64-bit one. -/
def positional? : List Char → Option (ColumnKind × Nat)
  | [] => none
  | mark :: ds =>
      if ds.isEmpty || !ds.all Number.isDigit || Nat.pow 2 64 ≤ Number.digitsValue ds then none
      else (kindOfMark mark).map fun kind => (kind, Number.digitsValue ds)

end Directive

namespace Table

/-- The column a reference means. -/
def referred? (t : Table) (reference : String) : Option Column :=
  match Directive.positional? reference.toList with
  | some (kind, i) => t.columnOfKind? i kind
  | none => t.column? (.name reference)

/-- Where the first row's value stands between the bounds of its column.  There is no
answer without a column, statistics and finite numbers; a column whose bounds are the
same stands at 0. -/
def normalized? (t : Table) (reference : String) : Option Float := do
  let c ← t.referred? reference
  let stats ← c.stats
  let x ← (← t.get? 0 (.name c.name)).number?
  if !x.isFinite || !stats.min.isFinite || !stats.max.isFinite then none
  else
    let span := stats.max - stats.min
    if span == 0.0 then some 0.0 else some ((x - stats.min) / span)

end Table

end Infographic
