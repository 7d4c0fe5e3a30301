/-
# Infographic.Proofs.StatsPresence -- which columns have statistics

The statistics of a column fit if it has some exactly when it is one of numbers or was given them
from outside (`Column.StatsFit`).  A change leaves a column with the kind and the statistics that
it had, gives or computes statistics, or takes the kind of numbers away (`restated_of_mem_change`).
Only a cast of the last sort spoils the fit, by leaving computed statistics behind
(`statsFit_change_iff`), so along a run all statistics fit exactly if no such cast is among the
changes (`run_stats_fit`).  A column of numbers always has statistics.
-/
import Infographic.Message.Table
import Infographic.Proofs.LabelSteps
import Infographic.Proofs.ManualStats
import Mathlib.Tactic.ByContra

namespace Infographic

set_option autoImplicit false

/-! ## Columns -/

namespace Column

/-- There are statistics exactly if the column is one of numbers or was given some. -/
def StatsFit (c : Column) : Prop :=
  c.stats.isSome = true ↔ c.kind = .number ∨ c.hasManualStats = true

/-- A column of numbers has statistics. -/
def Counted (c : Column) : Prop :=
  c.kind = .number → c.stats.isSome = true

variable {c c' c'' : Column}

theorem isSome_of_hasManualStats (manual : c.hasManualStats = true) : c.stats.isSome = true := by
  cases stats : c.stats with
  | none => simp [hasManualStats, stats] at manual
  | some s => rfl

theorem hasManualStats_congr (stats : c'.stats = c.stats) :
    c'.hasManualStats = c.hasManualStats := by
  rw [hasManualStats, hasManualStats, stats]

theorem StatsFit.counted (fit : c.StatsFit) : c.Counted := fun kind => fit.2 (.inl kind)

/-- The column has its kind and its statistics still, or was given some. -/
inductive Upheld (c c' : Column) : Prop
  | same (kind : c'.kind = c.kind) (stats : c'.stats = c.stats)
  | given (kind : c'.kind = c.kind) (manual : c'.hasManualStats = true)

namespace Upheld

theorem refl (c : Column) : Upheld c c := .same rfl rfl

theorem trans (first : Upheld c c') (second : Upheld c' c'') : Upheld c c'' := by
  cases second with
  | given kind manual =>
      cases first with
      | same kind' _ => exact .given (kind.trans kind') manual
      | given kind' _ => exact .given (kind.trans kind') manual
  | same kind stats =>
      cases first with
      | same kind' stats' => exact .same (kind.trans kind') (stats.trans stats')
      | given kind' manual =>
          exact .given (kind.trans kind') ((hasManualStats_congr stats).trans manual)

theorem counted (upheld : Upheld c c') (before : c.Counted) : c'.Counted := by
  intro number
  cases upheld with
  | same kind stats => rw [stats]; exact before (kind.symm.trans number)
  | given _ manual => exact isSome_of_hasManualStats manual

theorem statsFit (upheld : Upheld c c') (before : c.StatsFit) : c'.StatsFit := by
  cases upheld with
  | same kind stats => rwa [StatsFit, kind, stats, hasManualStats_congr stats]
  | given _ manual =>
      exact iff_of_true (isSome_of_hasManualStats manual) (.inr manual)

end Upheld

end Column

namespace Table

variable {t : Table} {ch : Change} {c c' : Column}

/-! ## What a change does to columns -/

/-- All statistics fit. -/
def StatsFit (t : Table) : Prop :=
  ∀ c ∈ t.columns, c.StatsFit

/-- Whether a change takes the kind of numbers away from a column with computed statistics. -/
def Change.Strands (t : Table) : Change → Prop
  | .cast key kind => kind ≠ .number ∧ (t.column? key).any Column.isComputed = true
  | _ => False

/-- What a change makes of the kind and the statistics of a column. -/
inductive Restated (t : Table) (ch : Change) : Column → Column → Prop
  | upheld {c c' : Column} (upheld : Column.Upheld c c') : Restated t ch c c'
  | computed {c c' : Column} (number : c'.kind = .number) (stats : c'.stats.isSome = true) :
      Restated t ch c c'
  /-- The column gets another kind than that of numbers, and keeps its statistics. -/
  | retyped {c : Column} {key : ColumnKey} {kind : ColumnKind} (cast : ch = .cast key kind)
      (other : kind ≠ .number) (here : t.column? key = some c) : Restated t ch c { c with kind }

theorem mem_modifyColumn {key : ColumnKey} {f : Column → Column}
    (member : c' ∈ (t.modifyColumn key f).columns) :
    ∃ c ∈ t.columns, c' = c ∨ t.column? key = some c ∧ c' = f c := by
  obtain ⟨i, place⟩ := List.mem_iff_getElem?.1 member
  rw [getElem?_modifyColumn] at place
  split at place
  · rename_i located
    obtain ⟨c, here, rfl⟩ := Option.map_eq_some_iff.1 place
    exact ⟨c, List.mem_of_getElem? here, .inr ⟨by rw [column?, located]; exact here, rfl⟩⟩
  · exact ⟨c', List.mem_of_getElem? place, .inl rfl⟩

theorem upheld_of_mem_modifyColumn {key : ColumnKey} {f : Column → Column}
    (upheld : ∀ c, Column.Upheld c (f c)) (member : c' ∈ (t.modifyColumn key f).columns) :
    ∃ c ∈ t.columns, Column.Upheld c c' := by
  obtain ⟨c, known, rfl | ⟨-, rfl⟩⟩ := mem_modifyColumn member
  · exact ⟨c', known, .refl c'⟩
  · exact ⟨c, known, upheld c⟩

theorem upheld_of_mem_overrideStats {key : ColumnKey} {u : StatsUpdate}
    (member : c' ∈ (t.overrideStats key u).columns) : ∃ c ∈ t.columns, Column.Upheld c c' := by
  have given (c : Column) :
      Column.Upheld c { c with stats := some ((c.stats.getD .empty).override u) } := .given rfl rfl
  exact upheld_of_mem_modifyColumn given member

theorem upheld_of_mem_setFormat {key : ColumnKey} {compact : Bool} {f : DisplayFormat}
    (member : c' ∈ (t.setFormat key compact f).columns) : ∃ c ∈ t.columns, Column.Upheld c c' :=
  upheld_of_mem_modifyColumn
    (fun c => by unfold Column.setFormat; split <;> exact .same rfl rfl) member

theorem upheld_of_mem_rename {key : ColumnKey} {name : String}
    (member : c' ∈ (t.rename key name).columns) : ∃ c ∈ t.columns, Column.Upheld c c' := by
  unfold rename at member
  split at member
  · exact ⟨c', member, .refl c'⟩
  · split at member
    · exact ⟨c', member, .refl c'⟩
    · rename_i c here
      split at member
      · exact ⟨c', member, .refl c'⟩
      · rcases List.mem_or_eq_of_mem_set member with old | rfl
        · exact ⟨c', old, .refl c'⟩
        · exact ⟨c, List.mem_of_getElem? here, .same rfl rfl⟩

theorem mem_of_mem_drop {key : ColumnKey} (member : c' ∈ (t.drop key).columns) :
    c' ∈ t.columns := by
  unfold drop at member
  split at member
  · exact member
  · split at member
    · exact member
    · exact List.mem_of_mem_eraseIdx member

/-- Reading a label gives statistics and names, and changes no kind. -/
theorem upheld_of_mem_readLabel {label : String} (member : c' ∈ (t.readLabel label).columns) :
    ∃ c ∈ t.columns, Column.Upheld c c' := by
  have step := labelStep_readLabel t label
  generalize t.readLabel label = after at step member
  cases step with
  | idle => exact ⟨c', member, .refl c'⟩
  | own => exact upheld_of_mem_overrideStats member
  | folded => exact upheld_of_mem_overrideStats (mem_of_mem_drop member)
  | renamed =>
      obtain ⟨b, known, given⟩ := upheld_of_mem_overrideStats member
      obtain ⟨c, before, renamed⟩ := upheld_of_mem_rename known
      exact ⟨c, before, renamed.trans given⟩

/-- What changes leave upheld one after the other they leave upheld. -/
theorem upheld_of_mem_foldl {α : Type} {step : Table → α → Table}
    (one : ∀ t a, ∀ c' ∈ (step t a).columns, ∃ c ∈ t.columns, Column.Upheld c c')
    {as : List α} (member : c' ∈ (as.foldl step t).columns) :
    ∃ c ∈ t.columns, Column.Upheld c c' := by
  induction as generalizing t with
  | nil => exact ⟨c', member, .refl c'⟩
  | cons a rest ih =>
      obtain ⟨b, known, later⟩ := ih member
      obtain ⟨c, before, first⟩ := one t a b known
      exact ⟨c, before, first.trans later⟩

/-- Where statistics are computed, a column is as before or has computed ones. -/
theorem restated_of_mem_computeStats {selection : List String}
    (member : c' ∈ (t.computeStats selection).columns) :
    ∃ c ∈ t.columns, c' = c ∧ (selects selection c && c.isComputed) = false ∨
      c'.kind = .number ∧ c'.stats.isSome = true := by
  obtain ⟨c, known, made⟩ := List.mem_map.1 member
  refine ⟨c, known, ?_⟩
  split at made
  · rename_i computed
    have number : c.kind = .number := by
      have both := (Bool.and_eq_true_iff.1 computed).2
      simp only [Column.isComputed, Bool.and_eq_true, beq_iff_eq] at both
      exact both.1
    subst made
    exact .inr ⟨number, rfl⟩
  · rename_i left
    exact .inl ⟨made.symm, Bool.eq_false_iff.2 left⟩

/-- **What a change does to a column.** -/
theorem restated_of_mem_change (member : c' ∈ (t.change ch).columns) :
    ∃ c ∈ t.columns, Restated t ch c c' := by
  have upheld (found : ∃ c ∈ t.columns, Column.Upheld c c') :
      ∃ c ∈ t.columns, Restated t ch c c' :=
    found.imp fun _ both => both.imp_right .upheld
  cases ch with
  | set row key cell =>
      refine ⟨c', ?_, .upheld (.refl c')⟩
      change c' ∈ (t.set row key cell).columns at member
      unfold Table.set at member
      split at member <;> exact member
  | overrideStats key u => exact upheld (upheld_of_mem_overrideStats member)
  | computeStats selection =>
      obtain ⟨c, known, ⟨rfl, -⟩ | ⟨number, stats⟩⟩ := restated_of_mem_computeStats member
      · exact ⟨c', known, .upheld (.refl c')⟩
      · exact ⟨c, known, .computed number stats⟩
  | rename key name => exact upheld (upheld_of_mem_rename member)
  | drop key => exact ⟨c', mem_of_mem_drop member, .upheld (.refl c')⟩
  | setFormat key compact f => exact upheld (upheld_of_mem_setFormat member)
  | setFormats formats compact =>
      exact upheld (upheld_of_mem_foldl (fun t e c' => upheld_of_mem_setFormat) member)
  | readLabels =>
      exact upheld (upheld_of_mem_foldl (fun t label c' => upheld_of_mem_readLabel) member)
  | cast key kind =>
      change c' ∈ (t.cast key kind).columns at member
      have step := castStep t key kind
      generalize t.cast key kind = after at step member
      cases step with
      | missing => exact ⟨c', member, .upheld (.refl c')⟩
      | retyped _ other columns =>
          rw [columns] at member
          obtain ⟨c, known, rfl | ⟨here, rfl⟩⟩ := mem_modifyColumn member
          · exact ⟨c', known, .upheld (.refl c')⟩
          · exact ⟨c, known, .retyped rfl other here⟩
      | @computed target _ found numeric columns =>
          obtain ⟨b, typed, made⟩ := restated_of_mem_computeStats member
          rw [columns] at typed
          obtain ⟨c, known, old⟩ := mem_modifyColumn typed
          refine ⟨c, known, ?_⟩
          rcases made with ⟨rfl, left⟩ | ⟨number, stats⟩
          · rcases old with rfl | ⟨here, rfl⟩
            · exact .upheld (.refl c')
            · -- left as it is although it was cast: its statistics are manual
              have same : c = target := Option.some.inj (here.symm.trans found)
              have manual : c.hasManualStats = true := by
                simpa [selects, Column.isComputed, Column.hasManualStats, same, numeric] using left
              exact .computed numeric (Column.isSome_of_hasManualStats manual)
          · exact .computed number stats

/-! ## Statistics along runs -/

theorem Restated.counted (restated : Restated t ch c c') (before : c.Counted) : c'.Counted := by
  cases restated with
  | upheld upheld => exact upheld.counted before
  | computed _ stats => exact fun _ => stats
  | retyped _ other _ => exact fun number => absurd number other

/-- A column of numbers has statistics, whatever the table goes through. -/
theorem counted_run (changes : List Change) (before : ∀ c ∈ t.columns, c.Counted) :
    ∀ c ∈ (t.run changes).columns, c.Counted := by
  induction changes generalizing t with
  | nil => exact before
  | cons ch rest ih =>
      refine ih fun c' member => ?_
      obtain ⟨c, known, restated⟩ := restated_of_mem_change member
      exact restated.counted (before c known)

theorem Restated.statsFit (restated : Restated t ch c c') (before : c.StatsFit)
    (spared : ¬ ch.Strands t) : c'.StatsFit := by
  cases restated with
  | upheld upheld => exact upheld.statsFit before
  | computed number stats => exact iff_of_true stats (.inl number)
  | @retyped key kind cast other here =>
      subst cast
      have manual : c.kind = .number → c.hasManualStats = true := by
        intro number
        by_contra computed
        exact spared ⟨other, by simp [here, Column.isComputed, number, computed]⟩
      unfold Column.StatsFit at before ⊢
      change c.stats.isSome = true ↔ kind = .number ∨ c.hasManualStats = true
      rw [before]
      exact ⟨fun fits => .inr (fits.elim manual id), fun fits => fits.imp_left fun number =>
        absurd number other⟩

theorem mem_columns_modifyColumn {key : ColumnKey} (here : t.column? key = some c)
    (f : Column → Column) : f c ∈ (t.modifyColumn key f).columns := by
  obtain ⟨i, located, place⟩ := Option.bind_eq_some_iff.1 here
  refine List.mem_of_getElem? (i := i) ?_
  rw [getElem?_modifyColumn, if_pos located, place, Option.map_some]

/-- A cast to strings or dates changes the kind of its column only. -/
theorem mem_columns_cast {key : ColumnKey} {kind : ColumnKind} (here : t.column? key = some c)
    (other : kind ≠ .number) : { c with kind } ∈ (t.cast key kind).columns := by
  have step := castStep t key kind
  generalize t.cast key kind = after at step ⊢
  cases step with
  | missing unknown => cases here.symm.trans unknown
  | retyped _ _ columns =>
      rw [columns]
      exact mem_columns_modifyColumn here fun c => { c with kind }
  | computed _ number => exact absurd number other

/-- The statistics that fit before a change fit after it, unless it takes the kind of numbers away
from a column with computed ones. -/
theorem statsFit_change_iff (fits : t.StatsFit) : (t.change ch).StatsFit ↔ ¬ ch.Strands t := by
  constructor
  · intro after strands
    cases ch with
    | cast key kind =>
        obtain ⟨other, computed⟩ := strands
        obtain ⟨c, here, computed⟩ := (Option.any_eq_true _ _).1 computed
        simp only [Column.isComputed, Bool.and_eq_true, beq_iff_eq, Bool.not_eq_true'] at computed
        obtain ⟨i, -, place⟩ := Option.bind_eq_some_iff.1 here
        have counted := (fits c (List.mem_of_getElem? place)).2 (.inl computed.1)
        rcases (after _ (mem_columns_cast here other)).1 counted with number | manual
        · exact other number
        · exact Bool.eq_false_iff.1 computed.2 manual
    | _ => exact strands
  · intro spared c' member
    obtain ⟨c, known, restated⟩ := restated_of_mem_change member
    exact restated.statsFit (fits c known) spared

/-- In a new table the columns of numbers have statistics, and no others. -/
theorem statsFit_ofRows (rows : List (List (Option Cell))) (names : List String) :
    (ofRows rows names).StatsFit := by
  intro c member
  obtain ⟨b, known, ⟨rfl, left⟩ | ⟨number, stats⟩⟩ := restated_of_mem_computeStats member
  · obtain ⟨place, -, rfl⟩ := List.mem_map.1 known
    simpa [selects, Column.isComputed, Column.plain, Column.hasManualStats, Column.StatsFit]
      using left
  · exact iff_of_true stats (.inl number)

theorem run_append (t : Table) (first second : List Change) :
    t.run (first ++ second) = (t.run first).run second :=
  List.foldl_append

/-- Statistics fit all along a run exactly if no change of it strands any. -/
theorem statsFit_run_iff (fits : t.StatsFit) (changes : List Change) :
    (∀ earlier, earlier <+: changes → (t.run earlier).StatsFit) ↔
      ∀ earlier ch later, changes = earlier ++ ch :: later → ¬ ch.Strands (t.run earlier) := by
  constructor
  · rintro along earlier ch later rfl
    have before := along earlier ⟨ch :: later, rfl⟩
    have after := along (earlier ++ [ch]) ⟨later, by simp⟩
    rw [run_append] at after
    exact (statsFit_change_iff before).1 after
  · intro spared earlier
    induction earlier using List.reverseRecOn with
    | nil => exact fun _ => fits
    | append_singleton earlier ch ih =>
        rintro ⟨later, rfl⟩
        rw [run_append]
        have before := ih ⟨ch :: later, by simp⟩
        exact (statsFit_change_iff before).2 (spared earlier ch later (by simp))

/-! ## Tables of messages -/

/-- What building the table of a message does to the table of its rows. -/
def messageChanges (m : Message) (locale : Locale) : List Change :=
  (m.columns.filterMap fun c => c.kind.toColumnKind?.map (.cast (.name c.label))) ++
    [.setFormats (declaredFormats m false locale) false,
      .setFormats (declaredFormats m true locale) true]

theorem ofMessage_eq_run (m : Message) (locale : Locale) :
    ofMessage m locale = (ofRows m.rows m.labels).run (messageChanges m locale) := by
  have casts (columns : List MessageColumn) (t : Table) :
      columns.foldl castDeclared t =
        t.run (columns.filterMap fun c => c.kind.toColumnKind?.map (.cast (.name c.label))) := by
    rw [run, List.foldl_filterMap]
    congr 1
    funext t c
    unfold castDeclared
    cases c.kind.toColumnKind? <;> rfl
  rw [messageChanges, run_append, ← casts]
  rfl

/-- A cast leaves the columns of other names alone. -/
theorem InStep.getElem?_cast_other {name : String} {i : Nat} (h : t.InStep)
    (here : t.columns[i]? = some c) (other : name ≠ c.name) (kind : ColumnKind) :
    (t.cast (.name name) kind).columns[i]? = some c := by
  have typed (f : Column → Column) : (t.modifyColumn (.name name) f).columns[i]? = some c := by
    rw [getElem?_modifyColumn, here, if_neg (mt (h.locate_name_iff here).1 other)]
  have step := castStep t (.name name) kind
  generalize t.cast (.name name) kind = after at step ⊢
  cases step with
  | missing => exact here
  | retyped _ _ columns => rw [columns, typed]
  | @computed target _ found _ columns =>
      have named := h.name_of_column? found
      have apart : selects [target.name] c = false := by
        simpa [selects, named] using fun same => other same.symm
      rw [Table.computeStats, List.getElem?_map, columns, typed]
      simp [apart]

/-- A column without manual statistics that is cast has the new kind.  Its statistics, if any, stay,
and a cast to numbers computes them from the cells it made. -/
theorem InStep.getElem?_cast_self {i : Nat} (h : t.InStep) (here : t.columns[i]? = some c)
    (computed : c.hasManualStats = false) (kind : ColumnKind) :
    (t.cast (.name c.name) kind).columns[i]? = some { c with
      kind
      stats := if kind = .number then
          some (.ofReadings ((t.cast (.name c.name) kind).readings c.name))
        else c.stats } := by
  have typed : (t.modifyColumn (.name c.name) fun c => { c with kind }).columns[i]? =
      some { c with kind } := by
    rw [getElem?_modifyColumn, here, if_pos ((h.locate_name_iff here).2 rfl)]
    rfl
  have step := castStep t (.name c.name) kind
  generalize t.cast (.name c.name) kind = after at step ⊢
  cases step with
  | missing unknown => cases (h.column?_name here).symm.trans unknown
  | retyped _ other columns => rw [columns, typed, if_neg other]
  | computed found number columns =>
      cases (h.column?_name here).symm.trans found
      subst number
      rw [Table.computeStats, List.getElem?_map, columns, typed, Option.map_some, if_pos]
      · rfl
      · simp [selects, Column.isComputed, Column.hasManualStats] at computed ⊢
        exact computed

theorem InStep.castDeclared (h : t.InStep) (d : MessageColumn) : (t.castDeclared d).InStep := by
  unfold Table.castDeclared
  split
  · exact h.cast _ _
  · exact h

theorem InStep.getElem?_castDeclared_other {i : Nat} (h : t.InStep) (here : t.columns[i]? = some c)
    {d : MessageColumn} (other : d.label ≠ c.name) :
    (t.castDeclared d).columns[i]? = some c := by
  unfold Table.castDeclared
  split
  · exact h.getElem?_cast_other here other _
  · exact here

/-- Casting columns to declared kinds leaves the others alone. -/
theorem InStep.getElem?_castAll_other {i : Nat} (h : t.InStep) (here : t.columns[i]? = some c)
    {declared : List MessageColumn} (others : ∀ d ∈ declared, d.label ≠ c.name) :
    (declared.foldl Table.castDeclared t).columns[i]? = some c := by
  induction declared generalizing t with
  | nil => exact here
  | cons d rest ih =>
      exact ih (h.castDeclared d)
        (h.getElem?_castDeclared_other here (others d List.mem_cons_self))
        fun d member => others d (List.mem_cons_of_mem _ member)

/-- Casting columns to declared kinds gives each its own, and computes statistics where that is the
kind of numbers. -/
theorem InStep.getElem?_castAll {i : Nat} (h : t.InStep) (here : t.columns[i]? = some c)
    (computed : c.hasManualStats = false) {declared : List MessageColumn}
    (distinct : (declared.map MessageColumn.label).Nodup) {d : MessageColumn}
    (member : d ∈ declared) (own : d.label = c.name) :
    ∃ c', (declared.foldl Table.castDeclared t).columns[i]? = some c' ∧ c'.name = c.name ∧
      c'.kind = d.kind.toColumnKind?.getD c.kind ∧ c'.hasManualStats = false ∧
      (c'.stats.isSome = true ↔
        c.stats.isSome = true ∨ d.kind.toColumnKind? = some .number) := by
  induction declared generalizing t with
  | nil => cases member
  | cons e rest ih =>
      obtain ⟨fresh, distinct⟩ := List.nodup_cons.1 distinct
      rcases List.mem_cons.1 member with rfl | later
      · have others (e : MessageColumn) (behind : e ∈ rest) : e.label ≠ c.name := fun same =>
          fresh (List.mem_map.2 ⟨e, behind, same.trans own.symm⟩)
        rw [List.foldl_cons]
        cases kind : d.kind.toColumnKind? with
        | none =>
            have same : t.castDeclared d = t := by rw [Table.castDeclared, kind]
            rw [same]
            exact ⟨c, h.getElem?_castAll_other here others, rfl, rfl, computed, by simp⟩
        | some k =>
            have casts : t.castDeclared d = t.cast (.name c.name) k := by
              rw [Table.castDeclared, kind, own]
            have there := h.getElem?_cast_self here computed k
            rw [casts]
            refine ⟨_, (h.cast _ _).getElem?_castAll_other there others, rfl, rfl, ?_, ?_⟩
            · cases k with
              | number => exact Stats.ofReadings_manual _
              | _ => exact computed
            · cases k <;> simp
      · have other : e.label ≠ c.name := fun same =>
          fresh (List.mem_map.2 ⟨d, later, own.trans same.symm⟩)
        exact ih (h.castDeclared e) (h.getElem?_castDeclared_other here other) distinct later

theorem getElem?_ofRows (rows : List (List (Option Cell))) {names : List String} {i : Nat}
    {name : String} (here : names[i]? = some name) :
    ∃ c, (ofRows rows names).columns[i]? = some c ∧ c.name = name ∧
      c.kind = kindOf (rows.head?.getD [])[i]?.join ∧ c.hasManualStats = false := by
  unfold ofRows
  dsimp only
  rw [computeStats, List.getElem?_map, List.getElem?_map, List.getElem?_zipIdx, here]
  simp only [Option.map_some, Nat.zero_add, Option.some.injEq, exists_eq_left']
  split
  · exact ⟨rfl, rfl, Stats.ofReadings_manual _⟩
  · exact ⟨rfl, rfl, rfl⟩

theorem length_columns_modifyColumn (t : Table) (key : ColumnKey) (f : Column → Column) :
    (t.modifyColumn key f).columns.length = t.columns.length := by
  unfold modifyColumn
  split
  · exact List.length_modify _ _ _
  · rfl

theorem length_columns_cast (t : Table) (key : ColumnKey) (kind : ColumnKind) :
    (t.cast key kind).columns.length = t.columns.length := by
  have step := castStep t key kind
  generalize t.cast key kind = after at step ⊢
  cases step with
  | missing => rfl
  | retyped _ _ columns => rw [columns, length_columns_modifyColumn]
  | computed _ _ columns =>
      rw [Table.computeStats, List.length_map, columns, length_columns_modifyColumn]

/-- The table of a message has a column for each that the message declares. -/
theorem length_columns_ofMessage (m : Message) (locale : Locale) :
    (ofMessage m locale).columns.length = m.columns.length := by
  have casts (t : Table) (declared : List MessageColumn) :
      (declared.foldl castDeclared t).columns.length = t.columns.length := by
    induction declared generalizing t with
    | nil => rfl
    | cons d rest ih =>
        refine (ih _).trans ?_
        unfold castDeclared
        split
        · exact length_columns_cast _ _ _
        · rfl
  have formats (t : Table) (formats : List (String × DisplayFormat)) (compact : Bool) :
      (t.setFormats formats compact).columns.length = t.columns.length := by
    unfold setFormats
    induction formats generalizing t with
    | nil => rfl
    | cons e rest ih => exact (ih _).trans (length_columns_modifyColumn _ _ _)
  unfold ofMessage
  dsimp only
  rw [formats, formats, casts, ofRows]
  simp [computeStats, Message.labels]

/-- **Which columns of a message fit.**  The statistics of the table of a message fit exactly if it
declares no column of strings or of dates whose first cell made it one of numbers. -/
theorem statsFit_ofMessage_iff (m : Message) (locale : Locale) (distinct : m.labels.Nodup) :
    (ofMessage m locale).StatsFit ↔
      ∀ (i : Nat) d, m.columns[i]? = some d → ∀ kind, d.kind.toColumnKind? = some kind →
        kind ≠ .number → kindOf (m.rows.head?.getD [])[i]?.join ≠ .number := by
  have column (i : Nat) (d : MessageColumn) (declares : m.columns[i]? = some d) :
      ∃ c, (ofMessage m locale).columns[i]? = some c ∧
        c.kind = d.kind.toColumnKind?.getD (kindOf (m.rows.head?.getD [])[i]?.join) ∧
        c.hasManualStats = false ∧
        (c.stats.isSome = true ↔ kindOf (m.rows.head?.getD [])[i]?.join = .number ∨
          d.kind.toColumnKind? = some .number) := by
    have named : m.labels[i]? = some d.label := by simp [Message.labels, declares]
    obtain ⟨a, first, name, kind, computed⟩ := getElem?_ofRows m.rows named
    have fits : a.stats.isSome = true ↔ a.kind = .number ∨ a.hasManualStats = true :=
      statsFit_ofRows m.rows m.labels a (List.mem_of_getElem? first)
    obtain ⟨b, second, -, kind', computed', stats⟩ :=
      (inStep_ofRows m.rows distinct).getElem?_castAll first computed distinct
        (List.mem_of_getElem? declares) name.symm
    obtain ⟨b', third, same, sameKind⟩ :=
      getElem?_setFormats (declaredFormats m false locale) false second
    obtain ⟨c, last, same', sameKind'⟩ :=
      getElem?_setFormats (declaredFormats m true locale) true third
    have still : c.stats = b.stats := same'.trans same
    refine ⟨c, last, ?_, ?_, ?_⟩
    · rw [sameKind', sameKind, kind', kind]
    · rw [Column.hasManualStats_congr still, computed']
    · rw [still, stats, fits, kind, computed]
      simp
  constructor
  · intro fits i d declares kind retypes other number
    obtain ⟨c, here, ofKind, computed, stats⟩ := column i d declares
    have counted := (fits c (List.mem_of_getElem? here)).1 (stats.2 (.inl number))
    rw [ofKind, retypes, computed] at counted
    exact counted.elim other Bool.false_ne_true
  · intro spared c member
    obtain ⟨i, here⟩ := List.mem_iff_getElem?.1 member
    have bound : i < m.columns.length := by
      rw [← length_columns_ofMessage m locale]
      exact (List.getElem?_eq_some_iff.1 here).1
    obtain ⟨c', there, ofKind, computed, stats⟩ := column i _ (List.getElem?_eq_getElem bound)
    cases here.symm.trans there
    have spared := spared i _ (List.getElem?_eq_getElem bound)
    rw [Column.StatsFit, stats, ofKind, computed]
    cases declared : m.columns[i].kind.toColumnKind? with
    | none => simp
    | some kind =>
        have kept := spared kind declared
        by_cases number : kind = .number
        · simp [number]
        · simp [number, kept number]

/-- **Which columns have statistics.**  Whatever a table goes through, its columns of numbers and
those that were given statistics have some.  No other column has any, all along the run, exactly if
no change of the run takes the kind of numbers away from a column with computed statistics: such a
cast leaves them behind.  The table of a message is one of these runs; with distinct labels its
statistics fit exactly if the message declares no column of strings or of dates whose first cell
made it one of numbers. -/
theorem run_stats_fit (rows : List (List (Option Cell))) (names : List String)
    (changes : List Change) :
    (∀ c ∈ ((ofRows rows names).run changes).columns,
      c.kind = .number ∨ c.hasManualStats = true → c.stats.isSome = true) ∧
    ((∀ earlier, earlier <+: changes → ((ofRows rows names).run earlier).StatsFit) ↔
      ∀ earlier ch later, changes = earlier ++ ch :: later →
        ¬ ch.Strands ((ofRows rows names).run earlier)) ∧
    ∀ m locale, ofMessage m locale = (ofRows m.rows m.labels).run (messageChanges m locale) ∧
      (m.labels.Nodup → ((ofMessage m locale).StatsFit ↔
        ∀ (i : Nat) d, m.columns[i]? = some d → ∀ kind, d.kind.toColumnKind? = some kind →
          kind ≠ .number → kindOf (m.rows.head?.getD [])[i]?.join ≠ .number)) := by
  refine ⟨fun c member => ?_, statsFit_run_iff (statsFit_ofRows rows names) changes,
    fun m locale => ⟨ofMessage_eq_run m locale, statsFit_ofMessage_iff m locale⟩⟩
  rintro (number | manual)
  · have counted := counted_run changes fun c known => (statsFit_ofRows rows names c known).counted
    exact counted c member number
  · exact Column.isSome_of_hasManualStats manual

/-- The theorem at a column with statistics from outside, which a cast does not strand, and at one
with computed ones, which it does. -/
theorem run_stats_fit_cast :
    (∀ earlier, earlier <+: [.overrideStats (.name "A") .none, .cast (.name "A") .string] →
      ((ofRows [[some (.number 5.0)]] ["A"]).run earlier).StatsFit) ∧
    ¬ ∀ earlier, earlier <+: [.cast (.name "A") .string] →
      ((ofRows [[some (.number 5.0)]] ["A"]).run earlier).StatsFit := by
  constructor
  · refine (run_stats_fit [[some (.number 5.0)]] ["A"]
      [.overrideStats (.name "A") .none, .cast (.name "A") .string]).2.1.2 ?_
    intro earlier ch later cut strands
    match earlier, cut with
    | [], cut =>
        cases cut
        exact strands
    | [_], cut =>
        cases cut
        exact absurd strands.2 (by decide +kernel)
    | _ :: _ :: _, cut => simp at cut
  · intro along
    exact (run_stats_fit [[some (.number 5.0)]] ["A"] [.cast (.name "A") .string]).2.1.1 along []
      (.cast (.name "A") .string) [] rfl ⟨by decide, by decide +kernel⟩

/-- A column of numbers cast to strings keeps its statistics. -/
theorem not_run_stats_fit :
    ¬ ∀ (rows : List (List (Option Cell))) (names : List String), names.Nodup →
      ∀ changes, ((ofRows rows names).run changes).StatsFit := by
  intro fits
  have after := fits [[some (.number 5.0)]] ["A"] (by decide) [.cast (.name "A") .string]
  have left : (((ofRows [[some (.number 5.0)]] ["A"]).run [.cast (.name "A") .string]).columns.all
      fun c => c.stats.isSome && c.kind != .number && !c.hasManualStats) = true := by
    decide +kernel
  simp only [List.all_eq_true, Bool.and_eq_true, bne_iff_ne, Bool.not_eq_true'] at left
  obtain ⟨c, member⟩ : ∃ c,
      c ∈ ((ofRows [[some (.number 5.0)]] ["A"]).run [.cast (.name "A") .string]).columns :=
    List.exists_mem_of_length_pos (by decide +kernel)
  obtain ⟨⟨stats, other⟩, computed⟩ := left c member
  rcases (after c member).1 stats with number | manual
  · exact other number
  · exact Bool.eq_false_iff.1 computed manual

end Table

end Infographic
