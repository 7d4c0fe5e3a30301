/-
# Infographic.Proofs.LabelReading -- what reading the labels keeps

Reading the labels goes through the names that the table had at first, while columns take other
names and go.  `Traced` is what holds of the columns before each label: they are some of the first
ones in their order, each with its cells, kind and formats and a name by `ReadFrom`; the labels
still ahead are names of columns that nothing has renamed.  A label with a tag may take its own
column away and only that one, so the columns whose labels have none are all there in the end
(`readLabels_keeps`).  Statistics come from the labels of the table: `Drawn` lists where.
-/
import Infographic.Proofs.LabelSteps
import Infographic.Proofs.ManualStats

namespace Infographic.Table

set_option autoImplicit false

open Directive (hasTag baseOf baseOf_ne Pins PassesOn)

variable {t : Table} {key : ColumnKey} {u : StatsUpdate} {i j k : Nat} {c d : Column}
  {name label : String}

/-! ## Cells by position -/

/-- The cells of a table, row by row. -/
def cells (t : Table) : List (List (Option Cell)) :=
  t.rows.map Row.cells

/-- In a table in step the cells of a column are those at its position. -/
theorem InStep.get?_column (h : t.InStep) (here : t.columns[i]? = some c) (row : Nat) :
    t.get? row (.name c.name) = t.cells[row]?.bind fun cells => cells[i]?.join := by
  rw [h.get?_rows here, cells, List.getElem?_map]
  cases found : t.rows[row]? with
  | none => rfl
  | some r =>
      have rowStep := h.rows r (List.mem_of_getElem? found)
      change r.get? (.name c.name) = r.cells[i]?.join
      rw [rowStep.get?_name h.index.distinct (columnNames_getElem? here), Row.get?,
        Row.locate_position]
      split
      · rfl
      · rename_i behind
        rw [List.getElem?_eq_none (Nat.le_of_not_lt behind)]
        rfl

theorem InStep.hasColumn_iff (h : t.InStep) : t.hasColumn name = true ↔ name ∈ t.columnNames := by
  rw [hasColumn, column?, Option.isSome_iff_exists, List.mem_iff_getElem?]
  constructor
  · rintro ⟨c, found⟩
    obtain ⟨i, located, -⟩ := Option.bind_eq_some_iff.1 found
    exact ⟨i, h.index.locate_name.1 located⟩
  · rintro ⟨i, place⟩
    have located : t.locate (.name name) = some i := h.index.locate_name.2 place
    obtain ⟨c, here⟩ := h.getElem?_of_locate located
    exact ⟨c, Option.bind_eq_some_iff.2 ⟨i, located, here⟩⟩

/-- Tables in step with the same cells have the same ones under columns at one position. -/
theorem InStep.get?_of_cells {t' : Table} (h : t.InStep) (h' : t'.InStep)
    (same : t'.cells = t.cells) (here : t.columns[i]? = some d)
    (there : t'.columns[i]? = some c) (row : Nat) :
    t'.get? row (.name c.name) = t.get? row (.name d.name) := by
  rw [h'.get?_column there, h.get?_column here, same]

theorem cells_overrideStats (t : Table) (key : ColumnKey) (u : StatsUpdate) :
    (t.overrideStats key u).cells = t.cells := by
  unfold overrideStats modifyColumn
  split <;> rfl

theorem columnNames_overrideStats (t : Table) (key : ColumnKey) (u : StatsUpdate) :
    (t.overrideStats key u).columnNames = t.columnNames :=
  columnNames_modifyColumn t key fun _ => rfl

theorem cells_rename (t : Table) (key : ColumnKey) (name : String) :
    (t.rename key name).cells = t.cells := by
  have kept (r : Row) (key : ColumnKey) : (r.rename key name).cells = r.cells := by
    unfold Row.rename
    split <;> rfl
  unfold rename
  split
  · rfl
  · split
    · rfl
    · split
      · rfl
      · simp [cells, Function.comp_def, kept]

theorem InStep.columns_drop (h : t.InStep) (here : t.columns[k]? = some d) :
    (t.drop (.name d.name)).columns = t.columns.eraseIdx k := by
  have located : t.locate (.name d.name) = some k := (h.locate_name_iff here).2 rfl
  simp only [Table.drop, located, here]

theorem InStep.columns_rename (h : t.InStep) (here : t.columns[k]? = some d)
    (fresh : name ∉ t.columnNames) :
    (t.rename (.name d.name) name).columns = t.columns.set k { d with name } := by
  have located : t.locate (.name d.name) = some k := (h.locate_name_iff here).2 rfl
  have changes : ¬ (d.name = name ∨ t.index.has name = true) := by
    rintro (same | taken)
    · exact fresh (same ▸ List.mem_of_getElem? (columnNames_getElem? here))
    · exact fresh (h.index.has_iff.1 taken)
  simp only [Table.rename, located, here, if_neg changes]

/-- Dropping a column takes its cell out of every row that is long enough. -/
theorem InStep.cells_drop (h : t.InStep) (here : t.columns[k]? = some d) :
    (t.drop (.name d.name)).cells = t.cells.map (·.eraseIdx k) := by
  have place := columnNames_getElem? here
  have one (r : Row) (member : r ∈ t.rows) :
      (r.delete (.name d.name)).cells = r.cells.eraseIdx k := by
    have rowStep := h.rows r member
    unfold Row.delete
    by_cases bound : k < r.cells.length
    · rw [rowStep.locate_name.2 ⟨bound, place⟩]
    · rw [rowStep.locate_name_behind h.index.distinct place bound,
        List.eraseIdx_of_length_le (by omega)]
  have located : t.locate (.name d.name) = some k := (h.locate_name_iff here).2 rfl
  unfold Table.drop
  simp only [located, here, cells, List.map_map]
  exact List.map_congr_left one

/-! ## Where columns and their statistics come from -/

/-- A label without its tags is the name of a column, or the name that the column can take. -/
def Means (label : String) (c : Column) : Prop :=
  c.name = baseOf label ∨ hasTag c.name.toList = true ∧ baseOf c.name = baseOf label

/-- The statistics that reading the labels of a table can give a column: its own, then from time to
time the bounds in a label that names it, or a statistic that the carrier under such a label has by
then. -/
inductive Drawn (t : Table) : Column → Option Stats → Prop
  | own (c : Column) : Drawn t c c.stats
  | pinned {c d : Column} {stats : Option Stats} {low high : Float} (before : Drawn t c stats)
      (here : d ∈ t.columns) (tagged : hasTag d.name.toList = true) (names : Means d.name c)
      (pins : Pins d.name low high) :
      Drawn t c (some ((stats.getD .empty).override (.bounds low high)))
  | carried {c d : Column} {stats carrier : Option Stats} {u : StatsUpdate}
      (before : Drawn t c stats) (here : d ∈ t.columns) (tagged : hasTag d.name.toList = true)
      (names : Means d.name c) (own : Drawn t d carrier) (passes : PassesOn d.name carrier u) :
      Drawn t c (some ((stats.getD .empty).override u))

/-- A column of a table after reading the labels, and the one it was before. -/
structure ReadFrom (t after : Table) (c c' : Column) : Prop where
  name : c'.name = c.name ∨ hasTag c.name.toList = true ∧ c'.name = baseOf c.name
  kind : c'.kind = c.kind
  standard : c'.standard = c.standard
  compact : c'.compact = c.compact
  cells : ∀ row, after.get? row (.name c'.name) = t.get? row (.name c.name)
  stats : c'.stats = c.stats ∨ c'.hasManualStats = true
  drawn : Drawn t c c'.stats

/-- The columns of a table are the kept ones of the first table, whose other columns had tags.  The
labels that are still to be read are names of columns that have kept them. -/
structure Traced (first t : Table) (kept : List Column) (ahead : List String) : Prop where
  inStep : t.InStep
  order : kept.Sublist first.columns
  length : kept.length = t.columns.length
  each : ∀ (i : Nat) c c', kept[i]? = some c → t.columns[i]? = some c' → ReadFrom first t c c'
  gone : ∀ c ∈ first.columns, c ∈ kept ∨ hasTag c.name.toList = true
  present : ∀ label ∈ ahead, label ∈ t.columnNames
  unread : ∀ (i : Nat) c c', kept[i]? = some c → t.columns[i]? = some c' → c'.name ∈ ahead →
    c'.name = c.name

namespace Traced

variable {first : Table} {kept : List Column} {ahead rest : List String}

/-- The kept column at the place of a column. -/
theorem exists_kept (traced : Traced first t kept ahead) (here : t.columns[i]? = some d) :
    ∃ c, kept[i]? = some c := by
  refine ⟨_, List.getElem?_eq_getElem ?_⟩
  rw [traced.length]
  exact (List.getElem?_eq_some_iff.1 here).1

/-- The column under a label that is still to be read, and the one it was. -/
theorem exists_unread (traced : Traced first t kept ahead) (member : label ∈ ahead) :
    ∃ (k : Nat) (c d : Column), kept[k]? = some c ∧ t.columns[k]? = some d ∧ c.name = label ∧
      d.name = label := by
  obtain ⟨k, place⟩ := List.mem_iff_getElem?.1 (traced.present label member)
  rw [columnNames, List.getElem?_map] at place
  obtain ⟨d, here, rfl⟩ := Option.map_eq_some_iff.1 place
  obtain ⟨c, there⟩ := traced.exists_kept here
  exact ⟨k, c, d, there, here, (traced.unread k c d there here member).symm, rfl⟩

/-- A label means the column that now has its base for a name. -/
theorem means (traced : Traced first t kept ahead) (there : kept[i]? = some c)
    (here : t.columns[i]? = some d) (found : d.name = baseOf label) : Means label c := by
  rcases (traced.each i c d there here).name with same | ⟨tagged, stripped⟩
  · exact .inl (same.symm.trans found)
  · exact .inr ⟨tagged, stripped.symm.trans found⟩

theorem weaken (traced : Traced first t kept (label :: rest)) : Traced first t kept rest :=
  { traced with
    present := fun other member => traced.present other (List.mem_cons_of_mem _ member)
    unread := fun i c c' kept here member =>
      traced.unread i c c' kept here (List.mem_cons_of_mem _ member) }

/-- Giving a column statistics that are drawn from the labels. -/
theorem overrideStats (traced : Traced first t kept ahead) {target : String}
    (source : ∀ (i : Nat) c d, kept[i]? = some c → t.columns[i]? = some d → d.name = target →
      Drawn first c (some ((d.stats.getD .empty).override u))) :
    Traced first (t.overrideStats (.name target) u) kept ahead := by
  have inStep := traced.inStep.overrideStats (.name target) u
  -- a column as it is, or the one under the name with other statistics
  have columns (i : Nat) (b : Column)
      (here : (t.overrideStats (.name target) u).columns[i]? = some b) :
      ∃ d, t.columns[i]? = some d ∧ (b = d ∨
        d.name = target ∧ b = { d with stats := some ((d.stats.getD .empty).override u) }) := by
    rw [Table.overrideStats, getElem?_modifyColumn] at here
    split at here
    · rename_i located
      obtain ⟨d, there, rfl⟩ := Option.map_eq_some_iff.1 here
      have named := (traced.inStep.locate_name_iff there).1 located
      exact ⟨d, there, .inr ⟨named.symm, rfl⟩⟩
    · exact ⟨b, here, .inl rfl⟩
  have names : (t.overrideStats (.name target) u).columnNames = t.columnNames :=
    columnNames_overrideStats t (.name target) u
  refine ⟨inStep, traced.order, ?_, fun i c b there here => ?_, traced.gone, ?_,
    fun i c b there here member => ?_⟩
  · have count := congrArg List.length names
    rw [columnNames, columnNames, List.length_map, List.length_map] at count
    rw [traced.length, count]
  · obtain ⟨d, known, made⟩ := columns i b here
    have before := traced.each i c d there known
    have cells (row : Nat) := (traced.inStep.get?_of_cells inStep (cells_overrideStats t _ u)
      known here row).trans (before.cells row)
    rcases made with rfl | ⟨named, rfl⟩
    · exact { before with cells }
    · exact { before with cells, stats := .inr rfl, drawn := source i c d there known named }
  · rw [names]
    exact traced.present
  · obtain ⟨d, known, rfl | ⟨-, rfl⟩⟩ := columns i b here
    · exact traced.unread i c b there known member
    · exact traced.unread i c d there known member

/-- The column under a label with a tag goes when the label is read. -/
theorem drop (traced : Traced first t kept (label :: rest)) (distinct : (label :: rest).Nodup)
    (tagged : hasTag label.toList = true) :
    ∃ kept', Traced first (t.drop (.name label)) kept' rest := by
  obtain ⟨k, c, d, there, here, rfl, named⟩ := traced.exists_unread List.mem_cons_self
  have inStep := traced.inStep.drop (.name c.name)
  have bound := (List.getElem?_eq_some_iff.1 here).1
  have columns := traced.inStep.columns_drop here
  have cells := traced.inStep.cells_drop here
  rw [named] at columns cells
  -- what stands behind the column has moved up by one
  have moved {α : Type} (as : List α) (i : Nat) :
      (as.eraseIdx k)[i]? = as[if i < k then i else i + 1]? := by
    rw [List.getElem?_eraseIdx]
    split <;> rfl
  refine ⟨kept.eraseIdx k, inStep, (List.eraseIdx_sublist _ _).trans traced.order, ?_,
    fun i a b was is => ?_, fun a member => ?_, fun other member => ?_,
    fun i a b was is member => ?_⟩
  · rw [columns, List.length_eraseIdx, List.length_eraseIdx, traced.length]
  · rw [moved] at was
    have known := is
    rw [columns, moved] at known
    have before := traced.each _ a b was known
    refine { before with cells := fun row => ?_ }
    rw [← before.cells row, inStep.get?_column is, traced.inStep.get?_column known, cells,
      List.getElem?_map]
    cases t.cells[row]? with
    | none => rfl
    | some r => exact congrArg Option.join (moved r i)
  · rcases traced.gone a member with still | tag
    · by_cases same : a = c
      · exact .inr (same ▸ tagged)
      · refine .inl (List.mem_eraseIdx_iff_getElem?.2 ?_)
        obtain ⟨m, place⟩ := List.mem_iff_getElem?.1 still
        refine ⟨m, fun eq => same ?_, place⟩
        subst eq
        exact Option.some.inj (place.symm.trans there)
    · exact .inr tag
  · have apart : other ≠ c.name := fun same => (List.nodup_cons.1 distinct).1 (same ▸ member)
    have known := traced.present other (List.mem_cons_of_mem _ member)
    obtain ⟨m, place⟩ := List.mem_iff_getElem?.1 known
    rw [columnNames, columns, ← List.eraseIdx_map]
    refine List.mem_eraseIdx_iff_getElem?.2 ⟨m, fun eq => apart ?_, place⟩
    subst eq
    rw [columnNames_getElem? here, named] at place
    exact (Option.some.inj place).symm
  · rw [moved] at was
    rw [columns, moved] at is
    exact traced.unread _ a b was is (List.mem_cons_of_mem _ member)

/-- The column under a label takes the free name that the label has without its tags. -/
theorem rename (traced : Traced first t kept (label :: rest)) (distinct : (label :: rest).Nodup)
    (tagged : hasTag label.toList = true) (free : t.hasColumn (baseOf label) = false) :
    Traced first (t.rename (.name label) (baseOf label)) kept rest := by
  obtain ⟨k, c, d, there, here, rfl, named⟩ := traced.exists_unread List.mem_cons_self
  have inStep := traced.inStep.rename (.name c.name) (baseOf c.name)
  have bound := (List.getElem?_eq_some_iff.1 here).1
  have fresh : baseOf c.name ∉ t.columnNames := fun member =>
    Bool.eq_false_iff.1 free (traced.inStep.hasColumn_iff.2 member)
  have columns := traced.inStep.columns_rename here fresh
  rw [named] at columns
  refine ⟨inStep, traced.order, ?_, fun i a b was is => ?_, traced.gone, fun other member => ?_,
    fun i a b was is member => ?_⟩
  · rw [columns, List.length_set, traced.length]
  · have known := is
    rw [columns, List.getElem?_set] at known
    split at known
    · rename_i same
      subst same
      cases known
      cases was.symm.trans there
      have before := traced.each k c d there here
      refine { before with name := .inr ⟨tagged, rfl⟩, cells := fun row => ?_ }
      exact (traced.inStep.get?_of_cells inStep (cells_rename t _ _) here is row).trans
        (before.cells row)
    · have before := traced.each i a b was known
      exact { before with
        cells := fun row => (traced.inStep.get?_of_cells inStep (cells_rename t _ _) known is
          row).trans (before.cells row) }
  · have apart : other ≠ c.name := fun same => (List.nodup_cons.1 distinct).1 (same ▸ member)
    obtain ⟨m, place⟩ :=
      List.mem_iff_getElem?.1 (traced.present other (List.mem_cons_of_mem _ member))
    rw [columnNames, columns, List.map_set]
    refine List.mem_iff_getElem?.2 ⟨m, ?_⟩
    rw [List.getElem?_set, if_neg]
    · exact place
    · rintro rfl
      rw [columnNames_getElem? here, named] at place
      exact apart (Option.some.inj place).symm
  · rw [columns, List.getElem?_set] at is
    split at is
    · rename_i same
      subst same
      cases is
      exact absurd (traced.present _ (List.mem_cons_of_mem _ member)) fresh
    · exact traced.unread i a b was is (List.mem_cons_of_mem _ member)

/-- **Step**: reading one label. -/
theorem readLabel (traced : Traced first t kept (label :: rest))
    (distinct : (label :: rest).Nodup) :
    ∃ kept', Traced first (t.readLabel label) kept' rest := by
  obtain ⟨k, c, d, there, here, rfl, named⟩ := traced.exists_unread List.mem_cons_self
  have known : c ∈ first.columns := traced.order.subset (List.mem_of_getElem? there)
  have own := traced.each k c d there here
  have step := labelStep_readLabel t c.name
  generalize t.readLabel c.name = after at step
  cases step with
  | idle => exact ⟨kept, traced.weaken⟩
  | own tagged pins blank =>
      refine ⟨kept, (traced.overrideStats fun i a b was is found => ?_).weaken⟩
      have same : b.name = a.name := traced.unread i a b was is (found ▸ List.mem_cons_self)
      rw [found] at same
      have names : Means c.name a := .inr ⟨same ▸ tagged, congrArg baseOf same.symm⟩
      exact .pinned (traced.each i a b was is).drawn known tagged names pins
  | folded tagged base source =>
      refine (traced.overrideStats fun i a b was is found => ?_).drop distinct tagged
      have before := (traced.each i a b was is).drawn
      have names := traced.means was is found
      rcases source with ⟨low, high, pins, rfl⟩ | passes
      · exact .pinned before known tagged names pins
      · have carrier : t.stats? (.name c.name) = d.stats := by
          rw [← named, traced.inStep.stats?_name here, stats?_position, here]
          rfl
        rw [carrier] at passes
        exact .carried before known tagged names own.drawn passes
  | renamed tagged pins free =>
      have renamed := traced.rename distinct tagged free
      refine ⟨kept, renamed.overrideStats fun i a b was is found => ?_⟩
      exact .pinned (renamed.each i a b was is).drawn known tagged (renamed.means was is found) pins

/-- **Run**: reading labels one after the other. -/
theorem readAll (labels : List String) (traced : Traced first t kept labels)
    (distinct : labels.Nodup) :
    ∃ kept', Traced first (labels.foldl Table.readLabel t) kept' [] := by
  induction labels generalizing t kept with
  | nil => exact ⟨kept, traced⟩
  | cons label rest ih =>
      obtain ⟨kept', next⟩ := traced.readLabel distinct
      exact ih next (List.nodup_cons.1 distinct).2

end Traced

/-- Before any label is read every column is itself. -/
theorem InStep.traced (h : t.InStep) : Traced t t t.columns t.columnNames := by
  have same {i : Nat} {c d : Column} (was : t.columns[i]? = some c) (is : t.columns[i]? = some d) :
      c = d := Option.some.inj (was.symm.trans is)
  refine ⟨h, .refl _, rfl, fun i c d was is => ?_, fun c member => .inl member,
    fun _ member => member, fun i c d was is _ => same is was ▸ rfl⟩
  cases same was is
  exact ⟨.inl rfl, rfl, rfl, rfl, fun _ => rfl, .inl rfl, .own c⟩

/-- In a table in step the labels are read in the order of the columns. -/
theorem InStep.readLabels_eq (h : t.InStep) :
    t.readLabels = t.columnNames.foldl Table.readLabel t := by
  rw [Table.readLabels, names, h.index.names_eq]

/-- **What reading the labels keeps.**  In a table of distinct names, whatever it went through, the
columns left after the labels have been read are some of the columns before, in their order.  Each
has its kind, its formats and its cells, and its name or, if that has a tag, what is left of it
without its tags.  Names stay distinct, and a column without a tag in its name is among those left,
under that name.  Statistics are as before or manual, and are drawn from the labels: ends of a
range, or a statistic of a carrier, put over what the column had, or over empty statistics if it had
none. -/
theorem readLabels_keeps (rows : List (List (Option Cell))) (names : List String)
    (distinct : names.Nodup) (changes : List Change) :
    let t := (ofRows rows names).run changes
    t.readLabels.columnNames.Nodup ∧
      ∃ kept, kept.Sublist t.columns ∧
        List.Forall₂ (ReadFrom t t.readLabels) kept t.readLabels.columns ∧
        ∀ c ∈ t.columns, c ∉ kept → hasTag c.name.toList = true := by
  intro t
  have h : t.InStep := (inStep_ofRows rows distinct).run changes
  obtain ⟨kept, traced⟩ := h.traced.readAll t.columnNames h.index.distinct
  rw [h.readLabels_eq]
  refine ⟨traced.inStep.index.distinct, kept, traced.order, ?_, fun c member missing =>
    (traced.gone c member).resolve_left missing⟩
  refine List.forall₂_iff_get.2 ⟨traced.length, fun i hi hi' => ?_⟩
  exact traced.each i _ _ (List.getElem?_eq_getElem hi) (List.getElem?_eq_getElem hi')

/-- The theorem at a range, a carrier and a column without a tag. -/
theorem readLabels_keeps_expenses :
    ["Expenses {{0..300}}", "Revenue", "Revenue {{max}}"].Nodup ∧
      let t := (ofRows [[some (.number 150.0), some (.number 10.0), some (.number 900.0)]]
        ["Expenses {{0..300}}", "Revenue", "Revenue {{max}}"]).run []
      t.readLabels.columnNames = ["Expenses", "Revenue"] ∧ t.readLabels.columnNames.Nodup ∧
        ∃ kept, kept.Sublist t.columns ∧
          List.Forall₂ (ReadFrom t t.readLabels) kept t.readLabels.columns := by
  refine ⟨by decide, ?_, ?_⟩
  · rw [((inStep_ofRows _ (by decide)).run _).readLabels_eq]
    decide +kernel
  obtain ⟨distinct, kept, order, read, -⟩ := readLabels_keeps
    [[some (.number 150.0), some (.number 10.0), some (.number 900.0)]]
    ["Expenses {{0..300}}", "Revenue", "Revenue {{max}}"] (by decide) []
  exact ⟨distinct, kept, order, read⟩

/-- A carrier without statistics gives the column it names empty ones. -/
theorem not_readLabels_keeps :
    ¬ ∀ (rows : List (List (Option Cell))) (names : List String), names.Nodup →
      (∀ c ∈ (ofRows rows names).columns, c.stats.isSome = false) →
      (∀ label ∈ names, ∀ low high, ¬ Pins label low high) →
      ∀ c ∈ (ofRows rows names).readLabels.columns, c.stats.isSome = false := by
  intro nothing
  have names : ["Name", "Name \x7b\x7bmin\x7d\x7d"].Nodup := by decide
  have after := nothing [[some (.text "x"), some (.text "y")]]
    ["Name", "Name \x7b\x7bmin\x7d\x7d"] names (by decide +kernel) ?_
  · rw [(inStep_ofRows _ names).readLabels_eq] at after
    exact absurd after (by decide +kernel)
  · intro label member low high
    rintro ⟨directive, read, pinned⟩
    have unpinned : (["Name", "Name \x7b\x7bmin\x7d\x7d"].all fun label =>
        ((Directive.ofText label).toOption.bind fun d => Directive.pinned? d.name).isNone) =
          true := by
      decide +kernel
    have here := List.all_eq_true.1 unpinned label member
    rw [read] at here
    simp [Except.toOption, pinned] at here

end Infographic.Table
