/-
# Infographic.Proofs.ManualStats -- statistics from outside stay

A change moves a column only by dropping one in front of it (`Table.place`).  Statistics that were
given to a column are marked manual: no change other than giving it new ones touches them.  One
change keeps them at the place where it leaves the column (`stats_change`), and so does a run
(`stats_run`); `manual_stats_persist` says it of every table of distinct names, by position and by
the name that the column has in the end.
-/
import Infographic.Proofs.TableInStep

namespace Infographic

set_option autoImplicit false

/-- Statistics computed from cells are not manual. -/
theorem Stats.ofReadings_manual (xs : List Float) : (ofReadings xs).manual = false := by
  have kept (s : Stats) : (xs.foldl add s).manual = s.manual := by
    induction xs generalizing s with
    | nil => rfl
    | cons x rest ih => exact ih _
  exact kept .empty

namespace Table

variable {t : Table} {key : ColumnKey} {i j : Nat} {c : Column}

/-! ## Columns by position -/

theorem getElem?_modifyColumn (t : Table) (key : ColumnKey) (f : Column → Column) (i : Nat) :
    (t.modifyColumn key f).columns[i]? =
      if t.locate key = some i then t.columns[i]?.map f else t.columns[i]? := by
  unfold modifyColumn
  split
  · rename_i k located
    rw [List.getElem?_modify, located]
    by_cases same : k = i <;> simp [same]
  · rename_i missing
    simp [missing]

theorem getElem?_setFormat (key : ColumnKey) (compact : Bool) (f : DisplayFormat)
    (here : t.columns[i]? = some c) :
    ∃ c', (t.setFormat key compact f).columns[i]? = some c' ∧ c'.stats = c.stats ∧
      c'.kind = c.kind := by
  rw [setFormat, getElem?_modifyColumn, here]
  split
  · exact ⟨c.setFormat compact f, rfl, by unfold Column.setFormat; split <;> exact ⟨rfl, rfl⟩⟩
  · exact ⟨c, rfl, rfl, rfl⟩

theorem getElem?_setFormats (formats : List (String × DisplayFormat)) (compact : Bool)
    (here : t.columns[i]? = some c) :
    ∃ c', (t.setFormats formats compact).columns[i]? = some c' ∧ c'.stats = c.stats ∧
      c'.kind = c.kind := by
  unfold setFormats
  induction formats generalizing t c with
  | nil => exact ⟨c, here, rfl, rfl⟩
  | cons e rest ih =>
      obtain ⟨b, there, stats, kind⟩ :=
        getElem?_setFormat (.name e.1) compact e.2 here
      obtain ⟨c', after, stats', kind'⟩ := ih there
      exact ⟨c', after, stats'.trans stats, kind'.trans kind⟩

/-- What a cast makes of the columns of a table: the one that is addressed gets the kind, and its
statistics are computed where that is the kind of numbers. -/
inductive CastStep (t : Table) (key : ColumnKey) (kind : ColumnKind) : Table → Prop
  | missing (unknown : t.column? key = none) : CastStep t key kind t
  | retyped {c : Column} {t' : Table} (found : t.column? key = some c) (other : kind ≠ .number)
      (columns : t'.columns = (t.modifyColumn key fun c => { c with kind }).columns) :
      CastStep t key kind t'
  | computed {c : Column} {t' : Table} (found : t.column? key = some c) (number : kind = .number)
      (columns : t'.columns = (t.modifyColumn key fun c => { c with kind }).columns) :
      CastStep t key kind (t'.computeStats [c.name])

theorem castStep (t : Table) (key : ColumnKey) (kind : ColumnKind) :
    CastStep t key kind (t.cast key kind) := by
  unfold cast
  cases found : t.column? key with
  | none => exact .missing found
  | some c =>
      cases kind with
      | string => exact .retyped found (by decide) rfl
      | number => exact .computed found rfl rfl
      | date => exact .retyped found (by decide) rfl

/-- What a key addresses in a table in step is a column. -/
theorem InStep.getElem?_of_locate (h : t.InStep) (found : t.locate key = some i) :
    ∃ c, t.columns[i]? = some c := by
  refine ⟨_, List.getElem?_eq_getElem ?_⟩
  cases key with
  | position k =>
      obtain ⟨bound, rfl⟩ : k < t.columns.length ∧ k = i := by
        simpa [locate, NameIndex.locate] using found
      exact bound
  | name name =>
      have place := h.index.locate_name.1 found
      simpa [columnNames] using (List.getElem?_eq_some_iff.1 place).1

theorem column?_position (t : Table) (i : Nat) : t.column? (.position i) = t.columns[i]? := by
  rw [column?, locate, NameIndex.locate]
  by_cases bound : i < t.columns.length <;> simp [bound]

theorem stats?_position (t : Table) (i : Nat) :
    t.stats? (.position i) = t.columns[i]?.bind Column.stats := by
  rw [stats?, column?_position]

/-- In a table in step the name of a column and its position have the same statistics. -/
theorem InStep.stats?_name (h : t.InStep) (here : t.columns[i]? = some c) :
    t.stats? (.name c.name) = t.stats? (.position i) := by
  rw [stats?_position, stats?, h.column?_name here, here]

/-! ## Where columns go -/

/-- Where dropping a column leaves the one at a position; the dropped one is nowhere. -/
def placeAfterDrop (t : Table) (key : ColumnKey) (i : Nat) : Option Nat :=
  match t.locate key with
  | some k => if k = i then none else if k < i then some (i - 1) else some i
  | none => some i

/-- Where a change leaves the column at a position.  Reading labels, which drops columns on its own
account, is not followed. -/
def place (t : Table) (i : Nat) : Change → Option Nat
  | .drop key => t.placeAfterDrop key i
  | .readLabels => none
  | _ => some i

/-- Where changes in order leave the column at a position. -/
def placeAfter (t : Table) (i : Nat) : List Change → Option Nat
  | [] => some i
  | ch :: rest => (t.place i ch).bind fun j => (t.change ch).placeAfter j rest

/-- Dropping a column leaves the others as they are. -/
theorem getElem?_drop (here : t.columns[i]? = some c) (there : t.placeAfterDrop key i = some j) :
    (t.drop key).columns[j]? = some c := by
  have bound := (List.getElem?_eq_some_iff.1 here).1
  unfold placeAfterDrop at there
  unfold drop
  cases located : t.locate key with
  | none =>
      rw [located] at there
      cases there
      exact here
  | some k =>
      rw [located] at there
      dsimp only at there ⊢
      split
      · rename_i missing
        have outside := List.getElem?_eq_none_iff.1 missing
        rw [if_neg (by omega), if_neg (by omega)] at there
        cases there
        exact here
      · dsimp only
        rw [List.getElem?_eraseIdx]
        split at there
        · cases there
        · split at there <;> cases there
          · rw [if_neg (by omega), Nat.sub_add_cancel (by omega), here]
          · rw [if_pos (by omega), here]

/-! ## Manual statistics -/

/-- Whether a change may give a column statistics from outside. -/
def Change.givesStats : Change → Bool
  | .overrideStats _ _ | .readLabels => true
  | _ => false

/-- Statistics are not computed where there are manual ones. -/
theorem stats_computeStats (here : t.columns[i]? = some c) (manual : c.hasManualStats = true)
    (selection : List String) : (t.computeStats selection).columns[i]? = some c := by
  simp [computeStats, here, Column.isComputed, manual]

/-- A column that is given a name keeps its statistics. -/
theorem stats_rename (key : ColumnKey) (name : String) (here : t.columns[i]? = some c) :
    ∃ c', (t.rename key name).columns[i]? = some c' ∧ c'.stats = c.stats := by
  unfold rename
  split
  · exact ⟨c, here, rfl⟩
  · split
    · exact ⟨c, here, rfl⟩
    · rename_i there
      split
      · exact ⟨c, here, rfl⟩
      · dsimp only
        rw [List.getElem?_set]
        split
        · rename_i same
          subst same
          cases here.symm.trans there
          exact ⟨_, if_pos (List.getElem?_eq_some_iff.1 here).1, rfl⟩
        · exact ⟨c, here, rfl⟩

/-- A column that is given a kind keeps its manual statistics, also where others are computed. -/
theorem stats_cast (key : ColumnKey) (kind : ColumnKind) (here : t.columns[i]? = some c)
    (manual : c.hasManualStats = true) :
    ∃ c', (t.cast key kind).columns[i]? = some c' ∧ c'.stats = c.stats := by
  have typed : ∃ c', (t.modifyColumn key fun c => { c with kind }).columns[i]? = some c' ∧
      c'.stats = c.stats := by
    rw [getElem?_modifyColumn, here]
    split
    · exact ⟨_, rfl, rfl⟩
    · exact ⟨c, rfl, rfl⟩
  have step := castStep t key kind
  generalize t.cast key kind = after at step ⊢
  cases step with
  | missing => exact ⟨c, here, rfl⟩
  | retyped _ _ columns => rwa [columns]
  | computed _ _ columns =>
      rw [← columns] at typed
      obtain ⟨c', place, stats⟩ := typed
      have still : c'.hasManualStats = true := by
        rwa [Column.hasManualStats, stats]
      exact ⟨c', stats_computeStats place still _, stats⟩

/-- **Step**: a change that gives no statistics leaves a column its manual ones. -/
theorem stats_change {ch : Change} (here : t.columns[i]? = some c)
    (manual : c.hasManualStats = true) (keeps : ch.givesStats = false)
    (there : t.place i ch = some j) :
    ∃ c', (t.change ch).columns[j]? = some c' ∧ c'.stats = c.stats := by
  cases ch with
  | set row key cell =>
      cases there
      refine ⟨c, ?_, rfl⟩
      change (t.set row key cell).columns[i]? = some c
      unfold Table.set
      split <;> exact here
  | overrideStats key u => cases keeps
  | readLabels => cases keeps
  | computeStats selection =>
      cases there
      exact ⟨c, stats_computeStats here manual selection, rfl⟩
  | rename key name =>
      cases there
      exact stats_rename key name here
  | drop key => exact ⟨c, getElem?_drop here there, rfl⟩
  | setFormat key compact f =>
      cases there
      obtain ⟨c', after, stats, -⟩ := getElem?_setFormat key compact f here
      exact ⟨c', after, stats⟩
  | setFormats formats compact =>
      cases there
      obtain ⟨c', after, stats, -⟩ := getElem?_setFormats formats compact here
      exact ⟨c', after, stats⟩
  | cast key kind =>
      cases there
      exact stats_cast key kind here manual

/-- **Run**: so does any number of such changes. -/
theorem stats_run {changes : List Change} (here : t.columns[i]? = some c)
    (manual : c.hasManualStats = true) (keeps : ∀ ch ∈ changes, ch.givesStats = false)
    (there : t.placeAfter i changes = some j) :
    ∃ c', (t.run changes).columns[j]? = some c' ∧ c'.stats = c.stats := by
  induction changes generalizing t i c with
  | nil =>
      cases there
      exact ⟨c, here, rfl⟩
  | cons ch rest ih =>
      obtain ⟨k, first, later⟩ := Option.bind_eq_some_iff.1 there
      obtain ⟨b, next, stats⟩ := stats_change here manual (keeps ch List.mem_cons_self) first
      have still : b.hasManualStats = true := by rwa [Column.hasManualStats, stats]
      obtain ⟨c', after, same⟩ :=
        ih next still (fun ch member => keeps ch (List.mem_cons_of_mem _ member)) later
      exact ⟨c', after, same.trans stats⟩

/-- **Manual statistics persist.**  Statistics given to a column of a table, whatever the table of
distinct names went through before, are the ones it had, or none, overridden.  Cells, formats,
casts, computing statistics, renaming columns and dropping others leave them exactly so: the column
has them where the changes have moved it to, and under the name it has there. -/
theorem manual_stats_persist (rows : List (List (Option Cell))) (names : List String)
    (distinct : names.Nodup) (before : List Change) (key : ColumnKey) (u : StatsUpdate) (i : Nat)
    (found : ((ofRows rows names).run before).locate key = some i) (later : List Change)
    (keeps : ∀ ch ∈ later, ch.givesStats = false) (j : Nat)
    (there : (((ofRows rows names).run before).overrideStats key u).placeAfter i later = some j) :
    let t := (ofRows rows names).run before
    let given := t.overrideStats key u
    let s := ((t.stats? (.position i)).getD .empty).override u
    s.manual = true ∧ given.stats? (.position i) = some s ∧
      (given.run later).stats? (.position j) = some s ∧
      ∃ name, (given.run later).columnNames[j]? = some name ∧
        (given.run later).stats? (.name name) = some s := by
  intro t given s
  have inStep : t.InStep := (inStep_ofRows rows distinct).run before
  obtain ⟨c, here⟩ := inStep.getElem?_of_locate found
  have marked : given.columns[i]? = some { c with stats := some s } := by
    change (t.overrideStats key u).columns[i]? = _
    rw [overrideStats, getElem?_modifyColumn, if_pos found, here]
    simp only [Option.map_some, s, stats?_position, here, Option.bind_some]
  obtain ⟨c', after, stats⟩ := stats_run marked rfl keeps there
  have placed : (given.run later).stats? (.position j) = some s := by
    rw [stats?_position, after]
    exact stats
  refine ⟨rfl, by rw [stats?_position, marked]; rfl, placed, c'.name, columnNames_getElem? after,
    ?_⟩
  exact (((inStep.overrideStats key u).run later).stats?_name after).trans placed

/-- The theorem at a column of numbers that is renamed, moved, and cast there and back. -/
theorem manual_stats_persist_moved :
    ["A", "B"].Nodup ∧
      let t := (ofRows [[some (.number 5.0), some (.number 7.0)]] ["A", "B"]).run []
      let given := t.overrideStats (.name "B") (.bounds 0.0 300.0)
      let s := ((t.stats? (.position 1)).getD .empty).override (.bounds 0.0 300.0)
      let later : List Change := [.set 0 (.name "B") none, .rename (.name "B") "C",
        .drop (.name "A"), .cast (.name "C") .string, .cast (.position 0) .number,
        .computeStats ["C"]]
      given.placeAfter 1 later = some 0 ∧ (given.run later).columnNames = ["C"] ∧
        (given.run later).stats? (.position 0) = some s := by
  refine ⟨by decide, ?_⟩
  have kept := manual_stats_persist [[some (.number 5.0), some (.number 7.0)]] ["A", "B"]
    (by decide) [] (.name "B") (.bounds 0.0 300.0) 1 (by decide +kernel)
    [.set 0 (.name "B") none, .rename (.name "B") "C", .drop (.name "A"),
      .cast (.name "C") .string, .cast (.position 0) .number, .computeStats ["C"]]
    (by decide) 0 (by decide +kernel)
  exact ⟨by decide +kernel, by decide +kernel, kept.2.2.1⟩

end Table

end Infographic
