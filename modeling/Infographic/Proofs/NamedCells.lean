/-
# Infographic.Proofs.NamedCells -- a row is a list of cells, some of them with a name

A row keeps its cells in a list and the positions of their names in an index beside it.  What it
stands for is one list, of cells that have a name or none, in which no name stands twice.  A new
row, a replaced cell, a cell that is taken out and a new name are then what one would do to that
list (`Row.Represents.set`, `Row.Represents.delete`, `Row.Represents.rename`), and so is any run of
changes (`Row.named_cells_run`).  No position in the index lies behind the cells.
-/
import Infographic.Proofs.RepeatedNames

namespace Infographic

set_option autoImplicit false

/-! ## Cells with names -/

/-- Cells in order, each with its name if it has one. -/
abbrev NamedCells := List (Option String × Option Cell)

/-- What is left of a cell's name when the name is given to another cell. -/
def forget (name : String) (mark : Option String) : Option String :=
  if mark = some name then none else mark

namespace NamedCells

/-- The cells of a new row; of a name that stands twice the last cell has it. -/
def ofZip : List (String × Option Cell) → NamedCells
  | [] => []
  | (name, cell) :: rest =>
      (if name ∈ rest.map Prod.fst then none else some name, cell) :: ofZip rest

/-- Cells under names; what has no counterpart is left out. -/
def ofCells (cells : List (Option Cell)) (names : List String) : NamedCells :=
  ofZip (names.zip cells)

/-- The position of the cell a key addresses. -/
def locate (p : NamedCells) : ColumnKey → Option Nat
  | .name name => p.findIdx? fun e => e.1 == some name
  | .position i => if i < p.length then some i else none

/-- The cell a key addresses: the one that has the name, or the one at the position. -/
def get? (p : NamedCells) : ColumnKey → Option Cell
  | .name name => (p.find? fun e => e.1 == some name).bind Prod.snd
  | .position i => p[i]?.bind Prod.snd

/-- Replace a cell; it keeps its name. -/
def set (p : NamedCells) (key : ColumnKey) (cell : Option Cell) : NamedCells :=
  match p.locate key with
  | some i => p.modify i fun e => (e.1, cell)
  | none => p

/-- Take a cell out, with its name. -/
def delete (p : NamedCells) (key : ColumnKey) : NamedCells :=
  match p.locate key with
  | some i => p.eraseIdx i
  | none => p

/-- Take a name from the cell that has it. -/
def release (p : NamedCells) (name : String) : NamedCells :=
  p.map fun e => (forget name e.1, e.2)

/-- Give a cell a name; any other cell that has the name loses it. -/
def rename (p : NamedCells) (key : ColumnKey) (name : String) : NamedCells :=
  match p.locate key with
  | some i => (p.release name).modify i fun e => (some name, e.2)
  | none => p

theorem ofZip_concat (places : List (String × Option Cell)) (name : String) (cell : Option Cell) :
    ofZip (places ++ [(name, cell)]) = (ofZip places).release name ++ [(some name, cell)] := by
  induction places with
  | nil => simp [ofZip, release]
  | cons place rest ih =>
      obtain ⟨first, kept⟩ := place
      rw [List.cons_append, ofZip, ofZip, ih, release, release, List.map_cons, List.cons_append]
      congr 2
      by_cases later : first ∈ rest.map Prod.fst <;> by_cases same : first = name <;>
        simp_all [forget]

end NamedCells

/-! ## Indexes with gaps -/

namespace NameIndex

/-- The index holds exactly the names among some marks, each name once and at its position. -/
structure Marks (ix : NameIndex) (marks : List (Option String)) : Prop where
  once : (ix.entries.map Prod.fst).Nodup
  mem_iff : ∀ name i, (name, i) ∈ ix.entries ↔ marks[i]? = some (some name)

namespace Marks

variable {ix : NameIndex} {marks : List (Option String)} {name : String} {i j : Nat}

theorem find?_eq_some_iff (h : ix.Marks marks) :
    ix.find? name = some i ↔ marks[i]? = some (some name) :=
  ⟨fun found => (h.mem_iff name i).1 (mem_of_find? found),
    fun placed => find?_of_mem h.once ((h.mem_iff name i).2 placed)⟩

/-- A name stands at one position only. -/
theorem position_unique (h : ix.Marks marks) (here : marks[i]? = some (some name))
    (there : marks[j]? = some (some name)) : i = j :=
  Option.some.inj ((h.find?_eq_some_iff.2 here).symm.trans (h.find?_eq_some_iff.2 there))

/-- There is one name at most to be found at a position, whichever entry is looked at first. -/
theorem nameAt?_eq (h : ix.Marks marks) (i : Nat) : ix.nameAt? i = marks[i]?.join := by
  unfold nameAt?
  cases found : ix.entries.find? fun e => e.2 == i with
  | none =>
      cases placed : marks[i]?.join with
      | none => rfl
      | some name =>
          have member := (h.mem_iff name i).2 (Option.join_eq_some_iff.1 placed)
          simpa using List.find?_eq_none.1 found _ member
  | some e =>
      have position : e.2 = i := by simpa using List.find?_some found
      have placed := (h.mem_iff e.1 e.2).1 (List.mem_of_find?_eq_some found)
      simp [← position, placed]

theorem lt_length (h : ix.Marks marks) {e : String × Nat} (member : e ∈ ix.entries) :
    e.2 < marks.length :=
  (List.getElem?_eq_some_iff.1 ((h.mem_iff e.1 e.2).1 member)).1

/-- The names among the marks are distinct. -/
theorem nodup (h : ix.Marks marks) : (marks.filterMap id).Nodup := by
  have apart : marks.Pairwise fun a b => ∀ name ∈ a, ∀ other ∈ b, name ≠ other := by
    rw [List.pairwise_iff_getElem]
    intro i j hi hj less name first other second same
    subst same
    have one : marks[i]? = some (some name) := by rw [List.getElem?_eq_getElem hi, first]
    have two : marks[j]? = some (some name) := by rw [List.getElem?_eq_getElem hj, second]
    have := h.position_unique one two
    omega
  exact apart.filterMap id fun a b differ name first other second =>
    differ name first other second

end Marks

/-- Forget the name at a position. -/
def vacate (ix : NameIndex) (i : Nat) : NameIndex :=
  match ix.nameAt? i with
  | some old => ix.erase old
  | none => ix

namespace Marks

variable {ix : NameIndex} {marks marks' : List (Option String)} {name : String} {i : Nat}

theorem vacate (h : ix.Marks marks) (i : Nat) :
    (ix.vacate i).Marks (marks.set i none) := by
  have here := h.nameAt?_eq i
  cases held : ix.nameAt? i with
  | none =>
      have kept : ix.vacate i = ix := by simp [NameIndex.vacate, held]
      rw [held] at here
      rw [kept]
      refine ⟨h.once, fun other j => ?_⟩
      rw [h.mem_iff, List.getElem?_set']
      by_cases same : i = j
      · subst same
        cases place : marks[i]? with
        | none => simp
        | some mark =>
            rw [place, Option.join_some] at here
            simp [← here]
      · simp [same]
  | some old =>
      have erased : ix.vacate i = ix.erase old := by simp [NameIndex.vacate, held]
      rw [held, eq_comm, Option.join_eq_some_iff] at here
      refine ⟨erased ▸ once_erase h.once old, fun other j => ?_⟩
      rw [erased, mem_erase, h.mem_iff, List.getElem?_set']
      by_cases same : i = j
      · subst same
        simp [here, eq_comm]
      · have apart : marks[j]? = some (some other) → other ≠ old := by
          rintro there rfl
          exact same (h.position_unique here there)
        simpa [same] using apart

theorem getElem?_set_none_ne (marks : List (Option String)) (i : Nat) (other : String) :
    (marks.set i none)[i]? ≠ some (some other) := by
  rw [List.getElem?_set']
  cases marks[i]? <;> simp

/-- A name is put where none stands; where it stood, none is left. -/
theorem insert (h : ix.Marks marks) (free : ∀ other, marks[i]? ≠ some (some other))
    (placed : ∀ j, marks'[j]? = if j = i then some (some name) else marks[j]?.map (forget name)) :
    (ix.insert name i).Marks marks' := by
  refine ⟨once_insert h.once name i, fun other j => ?_⟩
  rw [mem_insert, h.mem_iff, placed]
  by_cases same : j = i
  · subst same
    simp [free other, eq_comm]
  · cases place : marks[j]? with
    | none => simp [same]
    | some mark =>
        simp only [same, and_false, or_false, if_false, Option.map_some, Option.some.injEq, forget]
        split
        · rename_i held
          simp only [held, Option.some.injEq, reduceCtorEq, iff_false, not_and]
          exact fun apart eq => apart eq.symm
        · rename_i other_held
          refine ⟨And.right, fun eq => ⟨?_, eq⟩⟩
          rintro rfl
          exact other_held eq

/-- A position without a name is taken out, and the gap is closed. -/
theorem close (h : ix.Marks marks) (free : ∀ other, marks[i]? ≠ some (some other)) :
    (ix.close i).Marks (marks.eraseIdx i) := by
  refine ⟨once_close h.once i, fun other j => ?_⟩
  rw [mem_close, getElem?_eraseIdx_eq_some_iff]
  simp only [h.mem_iff]
  constructor
  · rintro ⟨k, placed, rfl⟩
    refine ⟨k, ?_, placed, rfl⟩
    rintro rfl
    exact free other placed
  · rintro ⟨k, -, placed, rfl⟩
    exact ⟨k, placed, rfl⟩

end Marks

end NameIndex

/-! ## Rows -/

namespace Row

/-- A row stands for cells with names. -/
structure Represents (r : Row) (p : NamedCells) : Prop where
  cells : r.cells = p.map Prod.snd
  index : r.index.Marks (p.map Prod.fst)

/-- What can be seen of a row: its cells, with the names that the index has for them. -/
def named (r : Row) : NamedCells :=
  r.cells.zipIdx.map fun e => (r.index.nameAt? e.2, e.1)

variable {r : Row} {p : NamedCells}

namespace Represents

theorem named_eq (h : r.Represents p) : r.named = p := by
  refine List.ext_getElem? fun i => ?_
  rw [named, List.getElem?_map, List.getElem?_zipIdx, h.cells, List.getElem?_map]
  cases place : p[i]? with
  | none => simp
  | some e => simp [h.index.nameAt?_eq, place]

theorem locate_eq (h : r.Represents p) (key : ColumnKey) : r.locate key = p.locate key := by
  cases key with
  | position i =>
      have length : r.cells.length = p.length := by simp [h.cells]
      simp [locate, NameIndex.locate, NamedCells.locate, length]
  | name name =>
      refine Option.ext fun i => ?_
      change r.index.find? name = some i ↔ _
      rw [h.index.find?_eq_some_iff, NamedCells.locate, List.findIdx?_eq_some_iff_getElem]
      constructor
      · intro placed
        obtain ⟨bound, here⟩ := List.getElem?_eq_some_iff.1 placed
        rw [List.length_map] at bound
        refine ⟨bound, by simpa using here, fun j less => ?_⟩
        have other : (p.map Prod.fst)[j]? ≠ some (some name) := fun there => by
          have := h.index.position_unique placed there
          omega
        simpa [List.getElem?_eq_getElem (Nat.lt_trans less bound)] using other
      · rintro ⟨bound, here, -⟩
        simpa [List.getElem?_eq_getElem bound] using here

/-- What a key addresses is a cell of the row. -/
theorem lt_of_locate (h : r.Represents p) {key : ColumnKey} {i : Nat}
    (located : r.locate key = some i) : i < r.cells.length := by
  cases key with
  | position j =>
      simp only [locate, NameIndex.locate] at located
      split at located
      · cases located
        assumption
      · cases located
  | name name =>
      have placed := h.index.find?_eq_some_iff.1 located
      simpa [h.cells] using (List.getElem?_eq_some_iff.1 placed).1

theorem get?_eq (h : r.Represents p) (key : ColumnKey) : r.get? key = p.get? key := by
  rw [get?, h.locate_eq, h.cells]
  cases key with
  | position i =>
      simp only [NamedCells.locate, NamedCells.get?]
      by_cases bound : i < p.length <;> simp [bound]
  | name name =>
      rw [NamedCells.get?, List.find?_eq_bind_findIdx?_getElem?, Option.bind_assoc]
      refine Option.bind_congr fun i _ => ?_
      cases place : p[i]? <;> simp [place]

/-- A new row stands for its cells, each with its name unless a later cell has it. -/
theorem ofCells (cells : List (Option Cell)) (names : List String) :
    (Row.ofCells cells names).Represents (.ofCells cells names) := by
  rw [ofCells_eq, NamedCells.ofCells]
  generalize names.zip cells = places
  induction places using List.reverseRecOn with
  | nil =>
      exact ⟨rfl, List.nodup_nil, by simp [NameIndex.ofNames, NameIndex.empty, NamedCells.ofZip]⟩
  | append_singleton places place ih =>
      obtain ⟨name, cell⟩ := place
      rw [NamedCells.ofZip_concat]
      refine ⟨?_, ?_⟩
      · have before : places.map Prod.snd = (NamedCells.ofZip places).map Prod.snd := ih.cells
        simp [before, NamedCells.release, Function.comp_def]
      · have length : places.length = (NamedCells.ofZip places).length := by
          simpa using congrArg List.length ih.cells
        change (NameIndex.ofNames _).Marks _
        rw [List.map_append, List.map_singleton, NameIndex.ofNames_concat]
        refine ih.index.insert (fun other => by simp [length]) fun j => ?_
        rw [List.map_append, List.map_singleton, List.getElem?_append, NamedCells.release]
        simp only [List.map_map, List.length_map, List.getElem?_map, length]
        generalize NamedCells.ofZip places = p
        rcases Nat.lt_trichotomy j p.length with before | last | behind
        · simp [before, Nat.ne_of_lt before]
        · simp [last]
        · have beyond : [some name][j - p.length]? = none :=
            List.getElem?_eq_none (by rw [List.length_singleton]; omega)
          simp [beyond, Nat.not_lt_of_lt behind, Nat.ne_of_gt behind]

theorem set (h : r.Represents p) (key : ColumnKey) (cell : Option Cell) :
    (r.set key cell).Represents (p.set key cell) := by
  rw [Row.set, NamedCells.set, h.locate_eq]
  cases p.locate key with
  | none => exact h
  | some i =>
      have marks : (p.modify i fun e => (e.1, cell)).map Prod.fst = p.map Prod.fst := by
        refine List.ext_getElem? fun j => ?_
        rw [List.getElem?_map, List.getElem?_map, List.getElem?_modify]
        cases p[j]? <;> by_cases same : i = j <;> simp [same]
      refine ⟨List.ext_getElem? fun j => ?_, marks ▸ h.index⟩
      rw [List.getElem?_set', h.cells, List.getElem?_map, List.getElem?_map, List.getElem?_modify]
      cases p[j]? <;> by_cases same : i = j <;> simp [same]

/-- A cell goes with its name; the others keep their order and their names. -/
theorem delete (h : r.Represents p) (key : ColumnKey) :
    (r.delete key).Represents (p.delete key) := by
  rw [Row.delete, NamedCells.delete, h.locate_eq]
  cases p.locate key with
  | none => exact h
  | some i =>
      have closed := (h.index.vacate i).close (NameIndex.Marks.getElem?_set_none_ne _ i)
      rw [List.eraseIdx_set_eq, List.eraseIdx_map, NameIndex.vacate] at closed
      refine ⟨by simp [h.cells, List.eraseIdx_map], ?_⟩
      cases held : r.index.nameAt? i with
      | none => simpa [held] using closed
      | some old => simpa [held, NameIndex.erase_close] using closed

/-- A cell is given a name, and any other cell that has it loses it. -/
theorem rename (h : r.Represents p) (key : ColumnKey) (name : String) :
    (r.rename key name).Represents (p.rename key name) := by
  rw [Row.rename, NamedCells.rename, h.locate_eq]
  cases located : p.locate key with
  | none => exact h
  | some i =>
      have bound : i < p.length := by
        simpa [h.cells] using h.lt_of_locate ((h.locate_eq key).trans located)
      refine ⟨?_, ?_⟩
      · refine h.cells.trans (List.ext_getElem? fun j => ?_)
        rw [List.getElem?_map, List.getElem?_map, List.getElem?_modify, NamedCells.release,
          List.getElem?_map]
        cases p[j]? <;> by_cases same : i = j <;> simp [same]
      · refine (h.index.vacate i).insert (NameIndex.Marks.getElem?_set_none_ne _ i) fun j => ?_
        rw [List.getElem?_map, List.getElem?_modify, NamedCells.release, List.getElem?_map,
          List.getElem?_set', List.getElem?_map]
        by_cases same : i = j
        · subst same
          simp [bound]
        · cases p[j]? <;> simp [same, eq_comm]

end Represents

/-! ### Runs -/

/-- A change of a row. -/
inductive Change where
  | set (key : ColumnKey) (cell : Option Cell)
  | delete (key : ColumnKey)
  | rename (key : ColumnKey) (name : String)

/-- Change a row. -/
def change (r : Row) : Change → Row
  | .set key cell => r.set key cell
  | .delete key => r.delete key
  | .rename key name => r.rename key name

/-- Change a row step by step. -/
def run (r : Row) (changes : List Change) : Row :=
  changes.foldl change r

end Row

namespace NamedCells

/-- Change cells with names as a row is changed. -/
def change (p : NamedCells) : Row.Change → NamedCells
  | .set key cell => p.set key cell
  | .delete key => p.delete key
  | .rename key name => p.rename key name

def run (p : NamedCells) (changes : List Row.Change) : NamedCells :=
  changes.foldl change p

end NamedCells

namespace Row

variable {r : Row} {p : NamedCells}

/-- One change of a row is that change of its cells and names. -/
theorem Represents.change (h : r.Represents p) (c : Change) :
    (r.change c).Represents (p.change c) := by
  cases c with
  | set key cell => exact h.set key cell
  | delete key => exact h.delete key
  | rename key name => exact h.rename key name

/-- Any run of changes of a row is that run of changes of its cells and names. -/
theorem Represents.run (h : r.Represents p) (changes : List Change) :
    (r.run changes).Represents (p.run changes) := by
  induction changes generalizing r p with
  | nil => exact h
  | cons c rest ih => exact ih (h.change c)

/-- **A row is a list of cells, some of them with a name.**  Whatever cells a row is made of, under
whatever names, and however it is changed afterwards: its cells with the names that its index has
for them are those of the list that was made and changed in the same way.  No name stands twice
there, every key addresses the same cell in both, and no position in the index, nor one that a key
addresses, lies behind the cells. -/
theorem named_cells_run (cells : List (Option Cell)) (names : List String)
    (changes : List Change) :
    let r := (ofCells cells names).run changes
    let p := (NamedCells.ofCells cells names).run changes
    r.named = p ∧ (p.filterMap Prod.fst).Nodup ∧
      (∀ key, r.locate key = p.locate key ∧ r.get? key = p.get? key) ∧
      (∀ e ∈ r.index.entries, e.2 < r.cells.length) ∧
      ∀ key i, r.locate key = some i → i < r.cells.length := by
  intro r p
  have h : r.Represents p := (Represents.ofCells cells names).run changes
  have names_once : (p.filterMap Prod.fst).Nodup := by
    have distinct := h.index.nodup
    rwa [List.filterMap_map] at distinct
  refine ⟨h.named_eq, names_once, fun key => ⟨h.locate_eq key, h.get?_eq key⟩, fun e member => ?_,
    fun key i located => h.lt_of_locate located⟩
  have bound := h.index.lt_length member
  simpa [h.cells] using bound

end Row

end Infographic
