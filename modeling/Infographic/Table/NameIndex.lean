/-
# Infographic.Table.NameIndex -- positions by name

An index gives names their positions.  A row and a table keep one each beside their
list of cells or columns and change both together.
-/

namespace Infographic

set_option autoImplicit false

/-- Positions by name, each name once. -/
structure NameIndex where
  entries : List (String × Nat)
  deriving Repr, DecidableEq

namespace NameIndex

def empty : NameIndex := ⟨[]⟩

/-- The position of a name. -/
def find? (ix : NameIndex) (name : String) : Option Nat :=
  (ix.entries.find? fun e => e.1 == name).map Prod.snd

def has (ix : NameIndex) (name : String) : Bool :=
  (ix.find? name).isSome

/-- The name at a position. -/
def nameAt? (ix : NameIndex) (position : Nat) : Option String :=
  (ix.entries.find? fun e => e.2 == position).map Prod.fst

/-- Forget a name. -/
def erase (ix : NameIndex) (name : String) : NameIndex :=
  ⟨ix.entries.filter fun e => e.1 != name⟩

/-- Give a name a position, in place of the one it has. -/
def insert (ix : NameIndex) (name : String) (position : Nat) : NameIndex :=
  ⟨(ix.erase name).entries ++ [(name, position)]⟩

/-- Close the gap at a position: later positions move down by one. -/
def close (ix : NameIndex) (position : Nat) : NameIndex :=
  ⟨ix.entries.map fun e => (e.1, if position < e.2 then e.2 - 1 else e.2)⟩

/-- The index of a list of names; of a name that stands twice the last position
counts. -/
def ofNames (names : List String) : NameIndex :=
  names.zipIdx.foldl (fun ix e => ix.insert e.1 e.2) empty

/-- The names in order of their positions. -/
def names (ix : NameIndex) : List String :=
  (ix.entries.mergeSort fun a b => a.2 ≤ b.2).map Prod.fst

end NameIndex

/-- How a column is addressed. -/
inductive ColumnKey where
  | name (s : String)
  | position (i : Nat)

/-- The position a key addresses among `count` positions with names in an index. -/
def NameIndex.locate (ix : NameIndex) (count : Nat) : ColumnKey → Option Nat
  | .name s => ix.find? s
  | .position i => if i < count then some i else none

end Infographic
