/-
# Infographic.Table.Column -- columns and their statistics

A column has a name, a kind, the display formats of its cells, and, if it is numeric
or was given some, statistics.  Statistics given from outside are marked manual; they
are never computed again.
-/
import Infographic.Table.DisplayFormat

namespace Infographic

set_option autoImplicit false

/-- What the cells of a column hold. -/
inductive ColumnKind where
  | string
  | number
  | date
  deriving Repr, DecidableEq

/-! ## Statistics -/

/-- Least, greatest, sum and mean of a column. -/
structure Stats where
  min : Float
  max : Float
  sum : Float
  avg : Float
  /-- Given from outside. -/
  manual : Bool

/-- New values for some of the statistics. -/
structure StatsUpdate where
  min : Option Float
  max : Option Float
  sum : Option Float
  avg : Option Float

namespace StatsUpdate

def none : StatsUpdate := ⟨.none, .none, .none, .none⟩

/-- New bounds. -/
def bounds (low high : Float) : StatsUpdate :=
  { none with min := some low, max := some high }

end StatsUpdate

namespace Stats

/-- The statistics before any reading: bounds that every reading widens. -/
def empty : Stats :=
  { min := Number.infinity, max := -Number.infinity, sum := 0.0, avg := 0.0, manual := false }

/-- Take in one reading.  A reading that is not a number moves no bound but spoils the
sum. -/
def add (s : Stats) (x : Float) : Stats :=
  { s with
    min := if x < s.min then x else s.min
    max := if s.max < x then x else s.max
    sum := s.sum + x }

/-- The statistics of some readings, in order. -/
def ofReadings (xs : List Float) : Stats :=
  let s := xs.foldl add empty
  { s with avg := s.sum / Float.ofNat xs.length }

/-- Replace the statistics an update has. -/
def merge (s : Stats) (u : StatsUpdate) : Stats :=
  { s with
    min := u.min.getD s.min
    max := u.max.getD s.max
    sum := u.sum.getD s.sum
    avg := u.avg.getD s.avg }

/-- Replace statistics from outside. -/
def override (s : Stats) (u : StatsUpdate) : Stats :=
  { s.merge u with manual := true }

end Stats

/-! ## Columns -/

/-- A table column. -/
structure Column where
  name : String
  kind : ColumnKind
  /-- How cells are shown. -/
  standard : Option DisplayFormat
  /-- How cells are shown where space is short. -/
  compact : Option DisplayFormat
  stats : Option Stats

namespace Column

/-- A column without formats and statistics. -/
def plain (name : String) (kind : ColumnKind) : Column :=
  { name, kind, standard := none, compact := none, stats := none }

def hasManualStats (c : Column) : Bool :=
  (c.stats.map Stats.manual).getD false

/-- Whether statistics are to be computed from the cells. -/
def isComputed (c : Column) : Bool :=
  c.kind == .number && !c.hasManualStats

def setFormat (c : Column) (compact : Bool) (f : DisplayFormat) : Column :=
  if compact then { c with compact := some f } else { c with standard := some f }

/-- Show a cell of the column; without a format by its plain text. -/
def write (c : Column) (compact : Bool) (cell : Cell) : String :=
  match (if compact then c.compact else none), c.standard with
  | some f, _ => f.write cell
  | none, some f => f.write cell
  | none, none => cell.toText

end Column

end Infographic
