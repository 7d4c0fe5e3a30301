/-
# Infographic.Proofs.LeftCarriers -- carriers that stay beside their columns

The labels of a table are read in the order of the columns.  A carrier goes if the column it names
is there when its turn comes, and a column that a range names may come only later: its name is
given to it when the label with the range is read.  `InStep.mem_readLabel` says which names there
are after one label, and `InStep.mem_foldl_readLabel` after some; so a carrier is left beside its
column exactly if the name is given behind it and not before (`carriers_left`).
-/
import Infographic.Proofs.LabelReading

namespace Infographic

set_option autoImplicit false

namespace Directive

variable {label name : String}

/-- The first tag of a label is the word for a statistic, in any letter case. -/
def Carries (label : String) : Prop :=
  hasTag label.toList = true ∧ ∃ directive, ofText label = .ok directive ∧
    String.ofList (directive.name.toList.map Char.toLower) ∈ ["min", "max", "sum", "avg"]

/-- A label is a name with the tag of a range, so that its column can take the name. -/
structure GivesName (label name : String) : Prop where
  tagged : hasTag label.toList = true
  pins : ∃ low high, Pins label low high
  base : baseOf label = name
  nonblank : name ≠ ""

/-- One of some labels gives a name. -/
def Given (labels : List String) (name : String) : Prop :=
  ∃ label ∈ labels, GivesName label name

theorem given_append {before after : List String} :
    Given (before ++ after) name ↔ Given before name ∨ Given after name := by
  simp [Given, or_and_right, exists_or]

theorem given_cons {labels : List String} :
    Given (label :: labels) name ↔ GivesName label name ∨ Given labels name := by
  simp [Given]

theorem isSome_carried?_iff {word : String} (stats : Option Stats) :
    (carried? word stats).isSome = true ↔
      String.ofList (word.toList.map Char.toLower) ∈ ["min", "max", "sum", "avg"] := by
  unfold carried?
  dsimp only
  repeat' split
  all_goals simp [*]

theorem isAlpha_of_toLower {c : Char} (lower : c.toLower.isAlpha = true) : c.isAlpha = true := by
  by_cases upper : c.isUpper = true
  · exact Bool.or_eq_true_iff.2 (.inl upper)
  · have same : c.toLower = c := dif_neg fun range => upper (decide_eq_true range)
    rwa [same] at lower

theorem isBlank_of_isAlpha {c : Char} (letter : c.isAlpha = true) : Text.isBlank c = false := by
  have bounds := Text.toNat_of_isAlpha letter
  simp only [Text.isBlank, Bool.or_eq_false_iff, Bool.and_eq_false_imp, decide_eq_true_eq,
    decide_eq_false_iff_not, beq_eq_false_iff_ne]
  omega

/-- A word of letters is no range. -/
theorem pinned?_eq_none {word : String} (letters : ∀ c ∈ word.toList, c.isAlpha = true) :
    pinned? word = none := by
  have missing {c : Char} (other : c.isAlpha = false) : c ∉ word.toList := fun member => by
    rw [letters c member] at other
    exact Bool.noConfusion other
  have solid : ∀ c ∈ word.toList, Text.isBlank c = false := fun c member =>
    isBlank_of_isAlpha (letters c member)
  have spaced : (word.toList.map fun c => if c = '_' then ' ' else c) = word.toList := by
    refine (List.map_congr_left fun c member => ?_).trans (List.map_id _)
    exact if_neg fun same => missing (by decide) (same ▸ member)
  have whole : Range.ofText word.toList = .single (Number.readCell word.toList) := by
    rw [Range.ofText, spaced, Text.trim_eq_self_of_solid solid, Range.ofSpaced, Range.separators]
    simp only [List.findSome?_cons, List.findSome?_nil]
    rw [Text.cutAt_eq_none (c := '.') (by decide) (missing (by decide)),
      Text.cutAt_eq_none (c := ' ') (by decide) (missing (by decide)),
      Text.cutAt_eq_none (c := ';') (by decide) (missing (by decide)),
      Text.cutWhere_eq_none_iff.2 solid]
  rw [pinned?, whole]

/-- A carrier is no range. -/
theorem Carries.not_pins (carries : Carries label) (low high : Float) : ¬ Pins label low high := by
  rintro ⟨directive, read, pinned⟩
  obtain ⟨-, other, found, word⟩ := carries
  cases read.symm.trans found
  have letters : ∀ c ∈ directive.name.toList, c.isAlpha = true := by
    intro c member
    have lower : c.toLower ∈ directive.name.toList.map Char.toLower := List.mem_map_of_mem member
    have words : ["min", "max", "sum", "avg"].all fun word => word.toList.all Char.isAlpha := by
      decide
    have lowered := List.all_eq_true.1 (List.all_eq_true.1 words _ word)
    rw [String.toList_ofList] at lowered
    exact isAlpha_of_toLower (lowered _ lower)
  exact nomatch (pinned?_eq_none letters).symm.trans pinned

theorem Carries.not_givesName (carries : Carries label) : ¬ GivesName label name := by
  rintro ⟨-, ⟨low, high, pins⟩, -, -⟩
  exact carries.not_pins low high pins

end Directive

namespace Table

open Directive (hasTag baseOf baseOf_ne Pins Carries GivesName Given given_cons given_append
  isSome_carried?_iff)

variable {t : Table} {label name base : String} {labels : List String}

/-! ## One label -/

theorem InStep.mem_drop (h : t.InStep) :
    name ∈ (t.drop (.name label)).columnNames ↔ name ∈ t.columnNames ∧ name ≠ label := by
  by_cases here : label ∈ t.columnNames
  · obtain ⟨c, member, rfl⟩ := List.mem_map.1 here
    obtain ⟨k, there⟩ := List.mem_iff_getElem?.1 member
    have place := columnNames_getElem? there
    rw [columnNames, h.columns_drop there, ← List.eraseIdx_map, List.mem_eraseIdx_iff_getElem?]
    constructor
    · rintro ⟨i, apart, found⟩
      exact ⟨List.mem_of_getElem? found, fun same =>
        apart (NameIndex.position_unique h.index.distinct found (same ▸ place))⟩
    · rintro ⟨member, other⟩
      obtain ⟨i, found⟩ := List.mem_iff_getElem?.1 member
      refine ⟨i, fun same => other ?_, found⟩
      rw [same, place] at found
      exact (Option.some.inj found).symm
  · have absent : t.locate (.name label) = none := by
      refine Option.eq_none_iff_forall_ne_some.2 fun k located => here ?_
      exact List.mem_of_getElem? (h.index.locate_name.1 located)
    rw [Table.drop, absent]
    exact ⟨fun member => ⟨member, fun same => here (same ▸ member)⟩, And.left⟩

theorem InStep.mem_rename (h : t.InStep) (here : label ∈ t.columnNames)
    (fresh : base ∉ t.columnNames) :
    name ∈ (t.rename (.name label) base).columnNames ↔
      name = base ∨ name ∈ t.columnNames ∧ name ≠ label := by
  obtain ⟨c, member, rfl⟩ := List.mem_map.1 here
  obtain ⟨k, there⟩ := List.mem_iff_getElem?.1 member
  have place := columnNames_getElem? there
  have bound := (List.getElem?_eq_some_iff.1 place).1
  have names : (t.rename (.name c.name) base).columnNames = t.columnNames.set k base := by
    rw [columnNames, h.columns_rename there fresh, List.map_set, columnNames]
  rw [names]
  constructor
  · intro member
    obtain ⟨i, found⟩ := List.mem_iff_getElem?.1 member
    rw [List.getElem?_set] at found
    split at found
    · exact .inl (Option.some.inj found).symm
    · rename_i apart
      exact .inr ⟨List.mem_of_getElem? found, fun same =>
        apart (NameIndex.position_unique h.index.distinct place (same ▸ found))⟩
  · rintro (rfl | ⟨member, other⟩)
    · exact List.mem_set bound _
    · obtain ⟨i, found⟩ := List.mem_iff_getElem?.1 member
      refine List.mem_iff_getElem?.2 ⟨i, ?_⟩
      rw [List.getElem?_set, if_neg, found]
      rintro rfl
      exact other (Option.some.inj (found.symm.trans place))

/-- Reading a label takes it out of some names: it gives another name, or it is a carrier whose
base is one of the names. -/
def Goes (names : List String) (label : String) : Prop :=
  (∃ name, GivesName label name) ∨ Carries label ∧ baseOf label ∈ names

/-- A label without a tag does not go. -/
theorem not_goes {names : List String} (untagged : hasTag label.toList = false) :
    ¬ Goes names label := by
  rintro (⟨name, gives⟩ | ⟨⟨tagged, -⟩, -⟩)
  · exact Bool.noConfusion (untagged.symm.trans gives.tagged)
  · exact Bool.noConfusion (untagged.symm.trans tagged)

/-- A range takes its label out of the names, unless it is all of the label. -/
theorem InStep.mem_pin (h : t.InStep) (here : label ∈ t.columnNames)
    (tagged : hasTag label.toList = true) {low high : Float} (pins : Pins label low high) :
    name ∈ (t.pin label (baseOf label) low high).columnNames ↔
      GivesName label name ∨
        name ∈ t.columnNames ∧ ¬ (name = label ∧ ∃ other, GivesName label other) := by
  unfold Table.pin
  dsimp only
  split
  · rename_i blank
    have free (other : String) : ¬ GivesName label other := fun gives =>
      gives.nonblank (gives.base ▸ String.isEmpty_iff.1 blank)
    rw [columnNames_overrideStats]
    simp only [free, false_or, exists_false, and_false, not_false_eq_true, and_true]
  · rename_i nonblank
    have gives : GivesName label (baseOf label) :=
      ⟨tagged, ⟨low, high, pins⟩, rfl, fun blank => nonblank (String.isEmpty_iff.2 blank)⟩
    have gone : (∃ other, GivesName label other) ↔ True := iff_true_intro ⟨_, gives⟩
    have given : GivesName label name ↔ name = baseOf label :=
      ⟨fun other => other.base.symm, fun same => same ▸ gives⟩
    rw [gone, and_true, given]
    split
    · rename_i known
      rw [(h.overrideStats _ _).mem_drop, columnNames_overrideStats]
      refine (or_iff_right_of_imp ?_).symm
      rintro rfl
      exact ⟨h.hasColumn_iff.1 known, baseOf_ne tagged⟩
    · rename_i free
      rw [columnNames_overrideStats,
        h.mem_rename here fun member => free (h.hasColumn_iff.2 member)]

/-- A carrier goes if its base is one of the names. -/
theorem InStep.mem_passOn (h : t.InStep) (tagged : hasTag label.toList = true)
    {directive : Directive} (read : Directive.ofText label = .ok directive) :
    name ∈ (t.passOn label (baseOf label) directive.name).columnNames ↔
      name ∈ t.columnNames ∧ ¬ (name = label ∧ Carries label ∧ baseOf label ∈ t.columnNames) := by
  unfold Table.passOn
  split
  · rename_i missing
    have absent : baseOf label ∉ t.columnNames := fun known => by
      rcases missing with same | missing
      · exact baseOf_ne tagged same
      · rw [h.hasColumn_iff.2 known] at missing
        exact absurd missing (by decide)
    simp only [absent, and_false, not_false_eq_true, and_true]
  · rename_i present
    have known : baseOf label ∈ t.columnNames :=
      h.hasColumn_iff.1 (by simpa using (not_or.1 present).2)
    split
    · rename_i update carried
      have word := (isSome_carried?_iff _).1 (Option.isSome_iff_exists.2 ⟨update, carried⟩)
      have carries : Carries label := ⟨tagged, directive, read, word⟩
      rw [(h.overrideStats _ _).mem_drop, columnNames_overrideStats]
      simp only [carries, known, and_true]
    · rename_i uncarried
      have other : ¬ Carries label := by
        rintro ⟨-, found, same, word⟩
        cases read.symm.trans same
        have some := (isSome_carried?_iff (t.stats? (.name label))).2 word
        rw [uncarried] at some
        exact absurd some (by decide)
      simp only [other, false_and, and_false, not_false_eq_true, and_true]

/-- **Step**: the names after reading one label are the one that it gives and those before, without
the label if it goes. -/
theorem InStep.mem_readLabel (h : t.InStep) (here : label ∈ t.columnNames) :
    name ∈ (t.readLabel label).columnNames ↔
      GivesName label name ∨
        name ∈ t.columnNames ∧ ¬ (name = label ∧ Goes t.columnNames label) := by
  -- a label without a directive neither gives a name nor goes
  have unread (silent : ∀ directive, ¬ (hasTag label.toList = true ∧
      Directive.ofText label = .ok directive)) :
      name ∈ t.columnNames ↔ GivesName label name ∨
        name ∈ t.columnNames ∧ ¬ (name = label ∧ Goes t.columnNames label) := by
    have free (other : String) : ¬ GivesName label other := by
      rintro ⟨tagged, ⟨low, high, directive, read, -⟩, -, -⟩
      exact silent directive ⟨tagged, read⟩
    have stays : ¬ Carries label := by
      rintro ⟨tagged, directive, read, -⟩
      exact silent directive ⟨tagged, read⟩
    simp only [Goes, free, stays, exists_false, false_and, or_self, and_false, not_false_eq_true,
      and_true, false_or]
  unfold Table.readLabel
  rw [h.hasColumn_iff.2 here]
  split
  · rename_i untagged
    exact unread fun directive reads => by simp [reads.1] at untagged
  · rename_i reads
    have tagged : hasTag label.toList = true := by simpa using reads
    split
    · rename_i fault failed
      exact unread fun directive reads => nomatch reads.2.symm.trans failed
    · rename_i directive read
      dsimp only
      split
      · rename_i low high pinned
        have pins : Pins label low high := ⟨directive, read, pinned⟩
        have other : ¬ Carries label := fun carries => carries.not_pins low high pins
        simp only [Goes, other, false_and, or_false]
        exact h.mem_pin here tagged pins
      · rename_i unpinned
        have free (other : String) : ¬ GivesName label other := by
          rintro ⟨-, ⟨low, high, found, same, pinned⟩, -, -⟩
          cases read.symm.trans same
          exact nomatch pinned.symm.trans unpinned
        simp only [Goes, free, exists_false, false_or]
        exact h.mem_passOn tagged read

/-! ## Some labels -/

/-- **Run**: the names after reading some of the labels, as far as these do not go. -/
theorem InStep.mem_foldl_readLabel (h : t.InStep) (distinct : labels.Nodup)
    (present : ∀ label ∈ labels, label ∈ t.columnNames)
    (stays : name ∈ labels → hasTag name.toList = false) :
    name ∈ (labels.foldl Table.readLabel t).columnNames ↔
      name ∈ t.columnNames ∨ Given labels name := by
  induction labels generalizing t with
  | nil => simp [Given]
  | cons label rest ih =>
      obtain ⟨apart, distinct⟩ := List.nodup_cons.1 distinct
      have here := present label List.mem_cons_self
      have later : ∀ other ∈ rest, other ∈ (t.readLabel label).columnNames := by
        intro other member
        refine (h.mem_readLabel here).2 (.inr ⟨present other (List.mem_cons_of_mem _ member), ?_⟩)
        rintro ⟨rfl, -⟩
        exact apart member
      have kept : ¬ (name = label ∧ Goes t.columnNames label) := by
        rintro ⟨rfl, goes⟩
        exact not_goes (stays List.mem_cons_self) goes
      rw [List.foldl_cons, ih (h.readLabel label) distinct later
        fun member => stays (List.mem_cons_of_mem _ member), h.mem_readLabel here, given_cons]
      simp only [kept, not_false_eq_true, and_true]
      tauto

variable {before after : List String}

/-- The labels that are still to be read are all there. -/
theorem InStep.ahead_present (h : t.InStep) (cut : t.columnNames = before ++ after) :
    ∀ label ∈ after, label ∈ (before.foldl Table.readLabel t).columnNames := by
  intro label member
  obtain ⟨distinct, -, apart⟩ := List.nodup_append.1 (cut ▸ h.index.distinct)
  refine (h.mem_foldl_readLabel distinct (fun other first => cut ▸ List.mem_append_left _ first)
    fun first => absurd rfl (apart label first label member)).2 (.inl ?_)
  exact cut ▸ List.mem_append_right _ member

theorem InStep.foldl_readLabel (h : t.InStep) (labels : List String) :
    (labels.foldl Table.readLabel t).InStep := by
  induction labels generalizing t with
  | nil => exact h
  | cons label rest ih => exact ih (h.readLabel label)

/-- A carrier stays if its base is not there when its turn comes, or a later label brings it
back. -/
theorem InStep.mem_of_carries (h : t.InStep) (cut : t.columnNames = before ++ label :: after)
    (carries : Carries label) :
    label ∈ t.readLabels.columnNames ↔
      baseOf label ∉ (before.foldl Table.readLabel t).columnNames ∨ Given after label := by
  have turn := h.foldl_readLabel before
  have present := h.ahead_present cut
  have distinct := (List.nodup_append.1 (cut ▸ h.index.distinct)).2.1
  obtain ⟨apart, distinct⟩ := List.nodup_cons.1 distinct
  have here := present label List.mem_cons_self
  have next : t.columnNames = (before ++ [label]) ++ after := by simpa using cut
  have later := h.ahead_present next
  rw [List.foldl_append] at later
  rw [h.readLabels_eq, cut, List.foldl_append, List.foldl_cons,
    (turn.readLabel label).mem_foldl_readLabel distinct later fun member => absurd member apart,
    turn.mem_readLabel here]
  have goes : Goes (before.foldl Table.readLabel t).columnNames label ↔
      baseOf label ∈ (before.foldl Table.readLabel t).columnNames :=
    ⟨fun goes => goes.elim (fun ⟨_, gives⟩ => absurd gives carries.not_givesName) And.right,
      fun known => .inr ⟨carries, known⟩⟩
  simp only [carries.not_givesName, here, goes, false_or, true_and]

/-- A name without a tag is there from the first, or from the range on that gives it. -/
theorem InStep.mem_of_untagged (h : t.InStep) (cut : t.columnNames = before ++ after)
    (plain : hasTag name.toList = false) :
    name ∈ (before.foldl Table.readLabel t).columnNames ↔
      name ∈ t.columnNames ∨ Given before name :=
  h.mem_foldl_readLabel (List.nodup_append.1 (cut ▸ h.index.distinct)).1
    (fun _ first => cut ▸ List.mem_append_left _ first) fun _ => plain

/-- A name that was not there comes from a range. -/
theorem InStep.mem_of_new (h : t.InStep) (new : name ∉ t.columnNames) :
    name ∈ t.readLabels.columnNames ↔ Given t.columnNames name := by
  rw [h.readLabels_eq, h.mem_foldl_readLabel h.index.distinct (fun _ member => member)
    fun member => absurd member new]
  exact or_iff_right new

/-- A carrier stands beside its column in the end if the column gets its name behind it, or if the
carrier is brought back. -/
theorem InStep.mem_beside (h : t.InStep) (cut : t.columnNames = before ++ label :: after)
    (carries : Carries label) (plain : hasTag (baseOf label).toList = false) :
    label ∈ t.readLabels.columnNames ∧ baseOf label ∈ t.readLabels.columnNames ↔
      baseOf label ∉ t.columnNames ∧ ¬ Given before (baseOf label) ∧ Given after (baseOf label) ∨
        Given after label ∧
          (baseOf label ∈ t.columnNames ∨ Given t.columnNames (baseOf label)) := by
  have base : baseOf label ∈ t.readLabels.columnNames ↔
      baseOf label ∈ t.columnNames ∨ Given t.columnNames (baseOf label) := by
    rw [h.readLabels_eq]
    exact h.mem_of_untagged (List.append_nil _).symm plain
  have given : Given t.columnNames (baseOf label) ↔
      Given before (baseOf label) ∨ Given after (baseOf label) := by
    rw [cut, given_append, given_cons]
    simp only [carries.not_givesName, false_or]
  rw [h.mem_of_carries cut carries, h.mem_of_untagged cut plain, base, given]
  by_cases known : baseOf label ∈ t.columnNames
  · simp [known]
  · by_cases early : Given before (baseOf label)
    · simp [known, early]
    · simp [known, early]

/-- **When carriers go.**  In a table of distinct names, whatever it went through, the labels are
read in order.  A carrier stays exactly if the name it has without its tags is missing when its turn
comes, or if a later label brings it back.  A name without a tag is there from the first, or from
the range on that gives it; and a name that was not there comes from a range.  So a carrier stands
beside its column in the end exactly if the column has its name from a range behind the carrier
and from none before it, or else if the carrier is brought back. -/
theorem carriers_left (rows : List (List (Option Cell))) (names : List String)
    (distinct : names.Nodup) (changes : List Change) :
    let t := (ofRows rows names).run changes
    let left := t.readLabels.columnNames
    (∀ before label after, t.columnNames = before ++ label :: after → Carries label →
      (label ∈ left ↔
        baseOf label ∉ (before.foldl readLabel t).columnNames ∨ Given after label)) ∧
    (∀ before after name, t.columnNames = before ++ after → hasTag name.toList = false →
      (name ∈ (before.foldl readLabel t).columnNames ↔
        name ∈ t.columnNames ∨ Given before name)) ∧
    (∀ name, name ∉ t.columnNames → (name ∈ left ↔ Given t.columnNames name)) ∧
    (∀ before label after, t.columnNames = before ++ label :: after → Carries label →
      hasTag (baseOf label).toList = false →
      (label ∈ left ∧ baseOf label ∈ left ↔
        baseOf label ∉ t.columnNames ∧ ¬ Given before (baseOf label) ∧
            Given after (baseOf label) ∨
          Given after label ∧
            (baseOf label ∈ t.columnNames ∨ Given t.columnNames (baseOf label)))) := by
  intro t left
  have h : t.InStep := (inStep_ofRows rows distinct).run changes
  exact ⟨fun _ _ _ cut carries => h.mem_of_carries cut carries,
    fun _ _ _ cut plain => h.mem_of_untagged cut plain, fun _ new => h.mem_of_new new,
    fun _ _ _ cut carries plain => h.mem_beside cut carries plain⟩

/-- The theorem at a carrier that stands before the range that names its column. -/
theorem carriers_left_expenses :
    ["Expenses {{Max}}", "Expenses {{0..300}}"].Nodup ∧
      let t := (ofRows [[some (.number 900.0), some (.number 150.0)]]
        ["Expenses {{Max}}", "Expenses {{0..300}}"]).run []
      t.columnNames = ["Expenses {{Max}}"] ++ ["Expenses {{0..300}}"] ∧
        Carries "Expenses {{Max}}" ∧
        "Expenses {{Max}}" ∈ t.readLabels.columnNames ∧
        baseOf "Expenses {{Max}}" ∈ t.readLabels.columnNames := by
  have distinct : ["Expenses {{Max}}", "Expenses {{0..300}}"].Nodup := by decide
  have carries : Carries "Expenses {{Max}}" := ⟨by decide, ⟨"Max", []⟩, rfl, by decide⟩
  obtain ⟨⟨low, high⟩, pinned⟩ : ∃ bounds, Directive.pinned? "0..300" = some bounds :=
    Option.isSome_iff_exists.1 (by decide +kernel)
  have gives : GivesName "Expenses {{0..300}}" (baseOf "Expenses {{Max}}") :=
    ⟨by decide, ⟨low, high, ⟨"0..300", []⟩, rfl, pinned⟩, by decide, by decide⟩
  obtain ⟨-, -, -, beside⟩ := carriers_left [[some (.number 900.0), some (.number 150.0)]]
    ["Expenses {{Max}}", "Expenses {{0..300}}"] distinct []
  refine ⟨distinct, rfl, carries,
    (beside [] _ _ rfl carries (by decide)).2 (.inl ⟨by decide, ?_, ?_⟩)⟩
  · rintro ⟨label, member, -⟩
    exact absurd member List.not_mem_nil
  · exact ⟨_, List.mem_cons_self, gives⟩

/-- A carrier before the range that names its column is left beside the column. -/
theorem not_carriers_left :
    ¬ ∀ (rows : List (List (Option Cell))) (names : List String), names.Nodup →
      ∀ label ∈ (ofRows rows names).readLabels.columnNames, Carries label →
        baseOf label ∉ (ofRows rows names).readLabels.columnNames := by
  intro gone
  have names : ["Expenses {{sum}}", "Expenses {{0..300}}"].Nodup := by decide
  have left : (ofRows [[some (.number 900.0), some (.number 150.0)]]
      ["Expenses {{sum}}", "Expenses {{0..300}}"]).readLabels.columnNames =
        ["Expenses {{sum}}", "Expenses"] := by
    rw [(inStep_ofRows _ names).readLabels_eq]
    decide +kernel
  have carries : Carries "Expenses {{sum}}" := ⟨by decide, ⟨"sum", []⟩, rfl, by decide⟩
  have beside := gone [[some (.number 900.0), some (.number 150.0)]] _ names _
    (left ▸ List.mem_cons_self) carries
  rw [left] at beside
  exact absurd beside (by decide)

end Table

end Infographic
