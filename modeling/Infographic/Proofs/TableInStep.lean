/-
# Infographic.Proofs.TableInStep -- rows, columns and indexes stay in step

A table keeps its column names three times: in the columns, in its own index, and in
the index of every row as far as the row goes.  `Table.InStep` says that the three
agree.  Every change of a table keeps them in step, refused and unknown names
included (`Table.InStep.change`), and so does any run of changes
(`Table.InStep.run`).  In a table in step a cell is found by the name of its column
and by its position alike (`Row.InStep.get?_name`).
-/
import Infographic.Directive.StatsLabel
import Infographic.Proofs.NameIndex
import Mathlib.Data.List.InsertIdx

namespace Infographic

set_option autoImplicit false

/-! ## Rows -/

namespace Row

/-- The index of the row lists the names of the columns the row has cells for. -/
structure InStep (r : Row) (names : List String) : Prop where
  fits : r.cells.length ≤ names.length
  index : r.index.Lists (names.take r.cells.length)

variable {r : Row} {names : List String}

theorem inStep_ofCells (cells : List (Option Cell)) (distinct : names.Nodup) :
    (ofCells cells names).InStep names where
  fits := by
    have count : (ofCells cells names).cells.length = min cells.length names.length := by
      simp [ofCells]
    rw [count]
    exact Nat.min_le_right _ _
  index := by
    simpa [ofCells, Nat.min_assoc] using
      NameIndex.lists_ofNames (distinct.sublist (List.take_sublist _ _))

/-- A name addresses its position, as far as the row goes. -/
theorem InStep.locate_name (h : r.InStep names) {name : String} {i : Nat} :
    r.locate (.name name) = some i ↔ i < r.cells.length ∧ names[i]? = some name := by
  rw [locate, h.index.locate_name, List.getElem?_take]
  by_cases bound : i < r.cells.length <;> simp [bound]

theorem locate_position {i : Nat} :
    r.locate (.position i) = if i < r.cells.length then some i else none := rfl

/-- The name of a column behind the end of the row addresses nothing. -/
theorem InStep.locate_name_behind (h : r.InStep names) (distinct : names.Nodup) {name : String}
    {i : Nat} (here : names[i]? = some name) (behind : ¬ i < r.cells.length) :
    r.locate (.name name) = none := by
  cases found : r.locate (.name name) with
  | none => rfl
  | some j =>
      obtain ⟨bound, there⟩ := h.locate_name.1 found
      exact absurd (NameIndex.position_unique distinct here there ▸ bound) behind

/-- A cell is found by the name of its column and by its position alike. -/
theorem InStep.get?_name (h : r.InStep names) (distinct : names.Nodup) {name : String} {i : Nat}
    (here : names[i]? = some name) : r.get? (.name name) = r.get? (.position i) := by
  have same : r.locate (.name name) = r.locate (.position i) := by
    rw [locate_position]
    by_cases bound : i < r.cells.length
    · rw [if_pos bound, h.locate_name.2 ⟨bound, here⟩]
    · rw [if_neg bound, h.locate_name_behind distinct here bound]
  rw [get?, get?, same]

/-- Replacing a cell keeps the row in step. -/
theorem InStep.set (h : r.InStep names) (key : ColumnKey) (cell : Option Cell) :
    (r.set key cell).InStep names := by
  unfold Row.set
  split
  · exact ⟨by simpa using h.fits, by simpa using h.index⟩
  · exact h

/-- Taking out a name before the end of a prefix shortens the prefix. -/
theorem take_eraseIdx_of_lt {i k : Nat} (before : i < k) :
    (names.eraseIdx i).take (k - 1) = (names.take k).eraseIdx i := by
  ext1 j
  simp only [List.getElem?_take, List.getElem?_eraseIdx]
  by_cases left : j < i
  · rw [if_pos left, if_pos left, if_pos (by omega), if_pos (by omega)]
  · rw [if_neg left, if_neg left]
    by_cases inside : j + 1 < k
    · rw [if_pos (by omega), if_pos inside]
    · rw [if_neg (by omega), if_neg inside]

/-- Taking out a column keeps the row in step with the columns that are left. -/
theorem InStep.delete (h : r.InStep names) (distinct : names.Nodup) {name : String} {i : Nat}
    (here : names[i]? = some name) : (r.delete (.name name)).InStep (names.eraseIdx i) := by
  obtain ⟨inside, -⟩ := List.getElem?_eq_some_iff.1 here
  have fits := h.fits
  have shorter := List.length_eraseIdx_of_lt inside
  unfold Row.delete
  by_cases bound : i < r.cells.length
  · have place : (names.take r.cells.length)[i]? = some name := by
      rw [List.getElem?_take, if_pos bound, here]
    have length := List.length_eraseIdx_of_lt bound
    rw [h.locate_name.2 ⟨bound, here⟩]
    dsimp only
    rw [h.index.nameAt?_eq, place]
    dsimp only
    rw [NameIndex.erase_close]
    refine ⟨by dsimp only; omega, ?_⟩
    dsimp only
    rw [length, take_eraseIdx_of_lt bound]
    exact h.index.drop place
  · rw [h.locate_name_behind distinct here bound]
    refine ⟨by dsimp only; omega, ?_⟩
    dsimp only
    rw [List.take_eraseIdx_eq_take_of_le _ _ _ (by omega)]
    exact h.index

/-- Renaming a column keeps the row in step, unless the new name is taken. -/
theorem InStep.rename (h : r.InStep names) (distinct : names.Nodup) {old new : String} {i : Nat}
    (here : names[i]? = some old) (fresh : new ∉ names) :
    (r.rename (.name old) new).InStep (names.set i new) := by
  have fits : r.cells.length ≤ (names.set i new).length := by simpa using h.fits
  unfold Row.rename
  by_cases bound : i < r.cells.length
  · have place : (names.take r.cells.length)[i]? = some old := by
      rw [List.getElem?_take, if_pos bound, here]
    rw [h.locate_name.2 ⟨bound, here⟩]
    dsimp only
    rw [h.index.nameAt?_eq, place]
    refine ⟨fits, ?_⟩
    dsimp only
    rw [List.take_set]
    exact h.index.rename place fun member => fresh (List.mem_of_mem_take member)
  · rw [h.locate_name_behind distinct here bound]
    refine ⟨fits, ?_⟩
    dsimp only
    rw [List.take_set_of_le (by omega)]
    exact h.index

end Row

/-! ## Tables -/

namespace Table

/-- The names of the columns, in order. -/
def columnNames (t : Table) : List String :=
  t.columns.map Column.name

/-- The index lists the names of the columns, and every row keeps step with them. -/
structure InStep (t : Table) : Prop where
  index : t.index.Lists t.columnNames
  rows : ∀ r ∈ t.rows, r.InStep t.columnNames

variable {t : Table}

theorem columnNames_getElem? {i : Nat} {c : Column} (here : t.columns[i]? = some c) :
    t.columnNames[i]? = some c.name := by
  simp [columnNames, here]

/-- A change of columns that keeps their names keeps the table in step. -/
theorem InStep.of_columnNames (h : t.InStep) {columns : List Column}
    (same : columns.map Column.name = t.columnNames) : ({ t with columns } : Table).InStep where
  index := by simpa [columnNames, same] using h.index
  rows := by simpa [columnNames, same] using h.rows

/-- A change of rows that keeps each of them in step keeps the table in step. -/
theorem InStep.of_rows (h : t.InStep) {rows : List Row}
    (kept : ∀ r ∈ rows, r.InStep t.columnNames) : ({ t with rows } : Table).InStep :=
  ⟨h.index, kept⟩

theorem columnNames_modifyColumn (t : Table) (key : ColumnKey) {f : Column → Column}
    (kept : ∀ c, (f c).name = c.name) : (t.modifyColumn key f).columnNames = t.columnNames := by
  unfold Table.modifyColumn
  split
  · refine List.ext_getElem? fun j => ?_
    rw [columnNames, columnNames, List.getElem?_map, List.getElem?_map, List.getElem?_modify]
    split <;> simp [Function.comp_def, kept]
  · rfl

theorem InStep.modifyColumn (h : t.InStep) (key : ColumnKey) {f : Column → Column}
    (kept : ∀ c, (f c).name = c.name) : (t.modifyColumn key f).InStep := by
  have same := columnNames_modifyColumn t key kept
  unfold Table.modifyColumn at same ⊢
  split
  · rename_i i located
    rw [located] at same
    exact h.of_columnNames same
  · exact h

theorem InStep.mapCells (h : t.InStep) (name : String) (f : Cell → Cell) :
    (t.mapCells name f).InStep := by
  refine h.of_rows fun r member => ?_
  obtain ⟨before, old, rfl⟩ := List.mem_map.1 member
  split
  · exact (h.rows before old).set _ _
  · exact h.rows before old

theorem columnNames_computeStats (t : Table) (selection : List String) :
    (t.computeStats selection).columnNames = t.columnNames := by
  rw [columnNames, Table.computeStats, List.map_map]
  refine List.map_congr_left fun c _ => ?_
  dsimp only [Function.comp]
  split <;> rfl

theorem InStep.computeStats (h : t.InStep) (selection : List String) :
    (t.computeStats selection).InStep :=
  h.of_columnNames (columnNames_computeStats t selection)

theorem InStep.set (h : t.InStep) (row : Nat) (key : ColumnKey) (cell : Option Cell) :
    (t.set row key cell).InStep := by
  unfold Table.set
  split
  · rename_i c _
    refine h.of_rows fun r member => ?_
    obtain ⟨j, place⟩ := List.mem_iff_getElem?.1 member
    rw [List.getElem?_modify] at place
    obtain ⟨before, old, rfl⟩ := Option.map_eq_some_iff.1 place
    have kept := h.rows before (List.mem_of_getElem? old)
    split
    · exact kept.set _ _
    · exact kept
  · exact h

theorem name_setFormat (c : Column) (compact : Bool) (f : DisplayFormat) :
    (c.setFormat compact f).name = c.name := by
  unfold Column.setFormat
  split <;> rfl

theorem columnNames_setFormat (t : Table) (key : ColumnKey) (compact : Bool) (f : DisplayFormat) :
    (t.setFormat key compact f).columnNames = t.columnNames :=
  columnNames_modifyColumn t key fun c => name_setFormat c compact f

theorem InStep.setFormat (h : t.InStep) (key : ColumnKey) (compact : Bool) (f : DisplayFormat) :
    (t.setFormat key compact f).InStep :=
  h.modifyColumn key fun c => name_setFormat c compact f

theorem InStep.setFormats (h : t.InStep) (formats : List (String × DisplayFormat))
    (compact : Bool) : (t.setFormats formats compact).InStep := by
  unfold Table.setFormats
  induction formats generalizing t with
  | nil => exact h
  | cons e rest ih => exact ih (h.setFormat _ _ _)

theorem InStep.overrideStats (h : t.InStep) (key : ColumnKey) (u : StatsUpdate) :
    (t.overrideStats key u).InStep :=
  h.modifyColumn key fun _ => rfl

theorem InStep.cast (h : t.InStep) (key : ColumnKey) (kind : ColumnKind) :
    (t.cast key kind).InStep := by
  unfold Table.cast
  split
  · exact h
  · rename_i c _
    have typed : (t.modifyColumn key fun c => { c with kind }).InStep :=
      h.modifyColumn key fun _ => rfl
    cases kind with
    | string => exact typed.mapCells c.name _
    | number => exact (typed.mapCells c.name _).computeStats _
    | date => exact typed

theorem InStep.rename (h : t.InStep) (key : ColumnKey) (name : String) :
    (t.rename key name).InStep := by
  unfold Table.rename
  split
  · exact h
  · rename_i i _
    split
    · exact h
    · rename_i c here
      split
      · exact h
      · rename_i free
        have place := columnNames_getElem? here
        have fresh : name ∉ t.columnNames := fun member =>
          free (.inr (h.index.has_iff.2 member))
        have after : (t.columns.set i { c with name }).map Column.name =
            t.columnNames.set i name := by
          rw [List.map_set, columnNames]
        constructor
        · dsimp only [columnNames]
          rw [after]
          exact h.index.rename place fresh
        · intro r member
          obtain ⟨before, old, rfl⟩ := List.mem_map.1 member
          dsimp only [columnNames]
          rw [after]
          exact (h.rows before old).rename h.index.distinct place fresh

theorem InStep.drop (h : t.InStep) (key : ColumnKey) : (t.drop key).InStep := by
  unfold Table.drop
  split
  · exact h
  · rename_i i _
    split
    · exact h
    · rename_i c here
      have place := columnNames_getElem? here
      have after : (t.columns.eraseIdx i).map Column.name = t.columnNames.eraseIdx i := by
        rw [columnNames, List.eraseIdx_map]
      constructor
      · dsimp only [columnNames]
        rw [after]
        exact h.index.drop place
      · intro r member
        obtain ⟨before, old, rfl⟩ := List.mem_map.1 member
        dsimp only [columnNames]
        rw [after]
        exact (h.rows before old).delete h.index.distinct place

theorem InStep.pin (h : t.InStep) (label base : String) (low high : Float) :
    (t.pin label base low high).InStep := by
  unfold Table.pin
  dsimp only
  split
  · exact h.overrideStats _ _
  · split
    · exact (h.overrideStats _ _).drop _
    · exact (h.rename _ _).overrideStats _ _

theorem InStep.passOn (h : t.InStep) (label base word : String) :
    (t.passOn label base word).InStep := by
  unfold Table.passOn
  split
  · exact h
  · split
    · exact (h.overrideStats _ _).drop _
    · exact h

theorem InStep.readLabel (h : t.InStep) (label : String) : (t.readLabel label).InStep := by
  unfold Table.readLabel
  split
  · exact h
  · split
    · exact h
    · dsimp only
      split
      · exact h.pin _ _ _ _
      · exact h.passOn _ _ _

theorem InStep.readLabels (h : t.InStep) : t.readLabels.InStep := by
  unfold Table.readLabels
  generalize t.names = labels
  induction labels generalizing t with
  | nil => exact h
  | cons label rest ih => exact ih (h.readLabel label)

/-! ## Runs of changes -/

/-- A change of a table from outside. -/
inductive Change where
  | set (row : Nat) (key : ColumnKey) (cell : Option Cell)
  | overrideStats (key : ColumnKey) (u : StatsUpdate)
  | computeStats (selection : List String)
  | rename (key : ColumnKey) (name : String)
  | drop (key : ColumnKey)
  | cast (key : ColumnKey) (kind : ColumnKind)
  | setFormat (key : ColumnKey) (compact : Bool) (f : DisplayFormat)
  | setFormats (formats : List (String × DisplayFormat)) (compact : Bool)
  | readLabels

/-- Carry out a change. -/
def change (t : Table) : Change → Table
  | .set row key cell => t.set row key cell
  | .overrideStats key u => t.overrideStats key u
  | .computeStats selection => t.computeStats selection
  | .rename key name => t.rename key name
  | .drop key => t.drop key
  | .cast key kind => t.cast key kind
  | .setFormat key compact f => t.setFormat key compact f
  | .setFormats formats compact => t.setFormats formats compact
  | .readLabels => t.readLabels

/-- Carry out changes in order. -/
def run (t : Table) (changes : List Change) : Table :=
  changes.foldl change t

theorem inStep_ofRows (rows : List (List (Option Cell))) {names : List String}
    (distinct : names.Nodup) : (ofRows rows names).InStep := by
  have same : ((names.zipIdx.map fun place =>
      Column.plain place.1 (kindOf ((rows.head?.getD [])[place.2]?.join))).map Column.name) =
        names := by
    simp [Column.plain, Function.comp_def]
  unfold ofRows
  refine InStep.computeStats ⟨?_, ?_⟩ _ <;> dsimp only [columnNames] <;> rw [same]
  · exact NameIndex.lists_ofNames distinct
  · intro r member
    obtain ⟨cells, -, rfl⟩ := List.mem_map.1 member
    exact Row.inStep_ofCells cells distinct

/-- Every change keeps a table in step. -/
theorem InStep.change (h : t.InStep) (c : Change) : (t.change c).InStep := by
  cases c with
  | set row key cell => exact h.set row key cell
  | overrideStats key u => exact h.overrideStats key u
  | computeStats selection => exact h.computeStats selection
  | rename key name => exact h.rename key name
  | drop key => exact h.drop key
  | cast key kind => exact h.cast key kind
  | setFormat key compact f => exact h.setFormat key compact f
  | setFormats formats compact => exact h.setFormats formats compact
  | readLabels => exact h.readLabels

/-- Every run of changes keeps a table in step. -/
theorem InStep.run (h : t.InStep) (changes : List Change) : (t.run changes).InStep := by
  induction changes generalizing t with
  | nil => exact h
  | cons c rest ih => exact ih (h.change c)

/-- In a table in step a column is at the position of its name. -/
theorem InStep.locate_name_iff (h : t.InStep) {name : String} {i : Nat} {c : Column}
    (here : t.columns[i]? = some c) : t.locate (.name name) = some i ↔ name = c.name := by
  rw [locate, h.index.locate_name, columnNames_getElem? here, Option.some.injEq, eq_comm]

/-- In a table in step the name of a column and its position address the same cells. -/
theorem InStep.get?_name (h : t.InStep) {i : Nat} {c : Column} (here : t.columns[i]? = some c)
    (row : Nat) : t.get? row (.name c.name) = t.get? row (.position i) := by
  have bound := (List.getElem?_eq_some_iff.1 here).1
  have named : t.locate (.name c.name) = some i := (h.locate_name_iff here).2 rfl
  have placed : t.locate (.position i) = some i := if_pos bound
  simp only [get?, column?, named, placed]

/-- Cells depend on the rows, the index and the names of the columns. -/
theorem get?_congr {t' : Table} (rows : t'.rows = t.rows) (index : t'.index = t.index)
    (names : t'.columnNames = t.columnNames) (row : Nat) (key : ColumnKey) :
    t'.get? row key = t.get? row key := by
  have through (t : Table) : t.get? row key = t.rows[row]?.bind fun r =>
      ((t.index.locate t.columnNames.length key).bind fun i => t.columnNames[i]?).bind fun name =>
        r.get? (.name name) := by
    rw [get?, column?, locate, columnNames, List.length_map]
    simp only [List.getElem?_map]
    cases t.rows[row]? with
    | none => rfl
    | some r =>
        cases t.index.locate t.columns.length key with
        | none => rfl
        | some i => cases placed : t.columns[i]? <;> simp [placed]
  rw [through, through, rows, index, names]

theorem rows_modifyColumn (t : Table) (key : ColumnKey) (f : Column → Column) :
    (t.modifyColumn key f).rows = t.rows := by
  unfold Table.modifyColumn
  split <;> rfl

theorem index_modifyColumn (t : Table) (key : ColumnKey) (f : Column → Column) :
    (t.modifyColumn key f).index = t.index := by
  unfold Table.modifyColumn
  split <;> rfl

/-- A change of a column that keeps its name changes no cell. -/
theorem get?_modifyColumn (t : Table) (key : ColumnKey) {f : Column → Column}
    (kept : ∀ c, (f c).name = c.name) (row : Nat) (key' : ColumnKey) :
    (t.modifyColumn key f).get? row key' = t.get? row key' :=
  get?_congr (rows_modifyColumn t key f) (index_modifyColumn t key f)
    (columnNames_modifyColumn t key kept) row key'

/-- In a table in step a column is found by its name. -/
theorem InStep.column?_name (h : t.InStep) {i : Nat} {c : Column} (here : t.columns[i]? = some c) :
    t.column? (.name c.name) = some c := by
  rw [column?, (h.locate_name_iff here).2 rfl, Option.bind_some, here]

theorem InStep.name_of_column? (h : t.InStep) {name : String} {c : Column}
    (found : t.column? (.name name) = some c) : c.name = name := by
  obtain ⟨i, located, here⟩ := Option.bind_eq_some_iff.1 found
  exact ((h.locate_name_iff here).1 located).symm

/-- The cells of a column are found in the rows. -/
theorem InStep.get?_rows (h : t.InStep) {i : Nat} {c : Column} (here : t.columns[i]? = some c)
    (row : Nat) :
    t.get? row (.name c.name) = t.rows[row]?.bind fun r => r.get? (.name c.name) := by
  rw [get?, h.column?_name here]
  cases t.rows[row]? <;> rfl

/-- **Rows, columns and indexes stay in step.**  Whatever changes a table of distinct
names goes through, its column names stay distinct, its index holds exactly their
positions and writes them out in order, and every row has cells for a prefix of the
columns and lists exactly their names.  A column's name and its position then address
the same cell, in the table and in every row. -/
theorem run_in_step (rows : List (List (Option Cell))) (names : List String)
    (distinct : names.Nodup) (changes : List Change) :
    let t := (ofRows rows names).run changes
    t.columnNames.Nodup ∧
      (∀ name i, t.index.find? name = some i ↔ t.columnNames[i]? = some name) ∧
      t.index.entries.Perm t.columnNames.zipIdx ∧
      t.names = t.columnNames ∧
      (∀ r ∈ t.rows, r.cells.length ≤ t.columns.length ∧
        r.index.entries.Perm (t.columnNames.take r.cells.length).zipIdx ∧
        ∀ name i, r.index.find? name = some i ↔
          (t.columnNames.take r.cells.length)[i]? = some name) ∧
      ∀ i c, t.columns[i]? = some c →
        (∀ row, t.get? row (.name c.name) = t.get? row (.position i)) ∧
        ∀ r ∈ t.rows, r.get? (.name c.name) = r.get? (.position i) := by
  intro t
  have h : t.InStep := (inStep_ofRows rows distinct).run changes
  refine ⟨h.index.distinct, fun _ _ => h.index.find?_eq_some_iff, h.index.perm_zipIdx,
    h.index.names_eq, fun r member => ?_, fun i c here => ⟨h.get?_name here, fun r member => ?_⟩⟩
  · have row := h.rows r member
    have fits : r.cells.length ≤ t.columns.length := by simpa [columnNames] using row.fits
    exact ⟨fits, row.index.perm_zipIdx, fun _ _ => row.index.find?_eq_some_iff⟩
  · exact (h.rows r member).get?_name h.index.distinct (columnNames_getElem? here)

/-- The theorem at a short row, a refused rename and unknown columns. -/
theorem run_in_step_short_row :
    ["A", "B", "C"].Nodup ∧
      let t := (ofRows [[some (.text "x"), none, some (.text "z")], [some (.text "y")]]
        ["A", "B", "C"]).run
          [.rename (.name "B") "C", .drop (.position 0), .drop (.name "D"),
            .rename (.position 1) "E"]
      t.columnNames = ["B", "E"] ∧ t.names = t.columnNames ∧
        t.get? 0 (.name "E") = t.get? 0 (.position 1) := by
  refine ⟨by decide, ?_⟩
  have kept := run_in_step [[some (.text "x"), none, some (.text "z")], [some (.text "y")]]
    ["A", "B", "C"] (by decide)
    [.rename (.name "B") "C", .drop (.position 0), .drop (.name "D"), .rename (.position 1) "E"]
  exact ⟨by decide +kernel, kept.2.2.2.1, (kept.2.2.2.2.2 1 _ rfl).1 0⟩

end Table

end Infographic
