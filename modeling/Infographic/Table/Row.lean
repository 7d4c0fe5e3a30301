/-
# Infographic.Table.Row -- rows

A row is a list of cells and an index of their names.  A row may be shorter than the
list of columns; columns behind its end have no position in it.
-/
import Infographic.Table.Cell
import Infographic.Table.NameIndex

namespace Infographic

set_option autoImplicit false

/-- Cells in order, with positions by name. -/
structure Row where
  cells : List (Option Cell)
  index : NameIndex

namespace Row

/-- A row of cells under names; what has no counterpart is left out. -/
def ofCells (cells : List (Option Cell)) (names : List String) : Row :=
  let count := min cells.length names.length
  ⟨cells.take count, NameIndex.ofNames (names.take count)⟩

def isEmpty (r : Row) : Bool :=
  r.cells.isEmpty

def locate (r : Row) (key : ColumnKey) : Option Nat :=
  r.index.locate r.cells.length key

/-- The cell a key addresses. -/
def get? (r : Row) (key : ColumnKey) : Option Cell :=
  (r.locate key).bind fun i => r.cells[i]?.join

/-- Replace the cell a key addresses. -/
def set (r : Row) (key : ColumnKey) (cell : Option Cell) : Row :=
  match r.locate key with
  | some i => { r with cells := r.cells.set i cell }
  | none => r

/-- Take out the cell a key addresses, with its name. -/
def delete (r : Row) (key : ColumnKey) : Row :=
  match r.locate key with
  | some i =>
      let closed := r.index.close i
      { cells := r.cells.eraseIdx i
        index := match r.index.nameAt? i with
          | some name => closed.erase name
          | none => closed }
  | none => r

/-- Give the cell a key addresses a new name. -/
def rename (r : Row) (key : ColumnKey) (name : String) : Row :=
  match r.locate key with
  | some i =>
      let index := match r.index.nameAt? i with
        | some old => r.index.erase old
        | none => r.index
      { r with index := index.insert name i }
  | none => r

end Row

end Infographic
