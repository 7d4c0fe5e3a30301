/-
# Infographic.Proofs.ScopeRules -- which declarations are in scope

The scope of an element is its own declarations and, behind them, what it keeps of the scope of
its parent (`extend_eq`).  A declaration with a qualifier is kept unless the element declares
the qualifier itself, so of such declarations a scope has one for each qualifier.
-/
import Infographic.Markup.Namespace
import Mathlib.Data.List.Nodup

namespace Infographic.Markup.Scope

set_option autoImplicit false

variable {own inherited s : Scope} {d : Declaration} {q u : String}

/-! ## Extending -/

/-- What is kept of inherited declarations behind others. -/
def kept (s : Scope) : Scope → Scope
  | [] => []
  | d :: rest =>
      if s.any fun e => e.qualifier == d.qualifier then kept s rest else d :: kept (s ++ [d]) rest

theorem foldl_inherit (s inherited : Scope) : inherited.foldl inherit s = s ++ kept s inherited := by
  induction inherited generalizing s with
  | nil => simp [kept]
  | cons d rest ih =>
      rw [List.foldl_cons, inherit, kept]
      split
      · exact ih s
      · rw [ih, List.append_assoc, List.singleton_append]

theorem extend_eq (own inherited : Scope) :
    extend own inherited =
      own ++ if own.isEmpty then inherited else kept own inherited := by
  rw [extend]
  split
  · rename_i none
    rw [List.isEmpty_iff.1 none, List.nil_append]
  · exact foldl_inherit own inherited

theorem of_mem_kept (member : d ∈ kept s inherited) :
    d ∈ inherited ∧ ∀ e ∈ s, e.qualifier ≠ d.qualifier := by
  induction inherited generalizing s with
  | nil => simp [kept] at member
  | cons first rest ih =>
      rw [kept] at member
      split at member
      · obtain ⟨inside, other⟩ := ih member
        exact ⟨List.mem_cons_of_mem _ inside, other⟩
      · rename_i other
        rcases List.mem_cons.1 member with rfl | later
        · exact ⟨List.mem_cons_self, by simpa using other⟩
        · obtain ⟨inside, apart⟩ := ih later
          exact ⟨List.mem_cons_of_mem _ inside, fun e old =>
            apart e (List.mem_append_left _ old)⟩

/-- The one declaration of a qualifier is kept, unless it is overridden. -/
theorem mem_kept (member : d ∈ inherited) (other : ∀ e ∈ s, e.qualifier ≠ d.qualifier)
    (one : ∀ e ∈ inherited, e.qualifier = d.qualifier → e = d) : d ∈ kept s inherited := by
  induction inherited generalizing s with
  | nil => cases member
  | cons first rest ih =>
      have later (e : Declaration) (inside : e ∈ rest) : e.qualifier = d.qualifier → e = d :=
        one e (List.mem_cons_of_mem _ inside)
      rw [kept]
      by_cases here : first = d
      · subst here
        rw [if_neg (by simpa using other)]
        exact List.mem_cons_self
      · have inside : d ∈ rest := (List.mem_cons.1 member).resolve_left (Ne.symm here)
        split
        · exact ih inside other later
        · refine List.mem_cons_of_mem _ (ih inside (fun e old => ?_) later)
          rcases List.mem_append.1 old with old | new
          · exact other e old
          · rw [List.mem_singleton.1 new]
            exact fun same => here (one first List.mem_cons_self same)

theorem mem_extend_own (member : d ∈ own) : d ∈ extend own inherited := by
  rw [extend_eq]
  exact List.mem_append_left _ member

theorem of_mem_extend (member : d ∈ extend own inherited) :
    d ∈ own ∨ (d ∈ inherited ∧ ∀ e ∈ own, e.qualifier ≠ d.qualifier) := by
  rw [extend_eq, List.mem_append] at member
  refine member.imp_right fun behind => ?_
  split at behind
  · rename_i none
    exact ⟨behind, by simp [List.isEmpty_iff.1 none]⟩
  · exact of_mem_kept behind

theorem mem_extend_inherited (member : d ∈ inherited)
    (other : ∀ e ∈ own, e.qualifier ≠ d.qualifier)
    (one : ∀ e ∈ inherited, e.qualifier = d.qualifier → e = d) : d ∈ extend own inherited := by
  rw [extend_eq]
  refine List.mem_append_right _ ?_
  split
  · exact member
  · exact mem_kept member other one

/-! ## Declarations with a qualifier -/

/-- Every qualifier is declared once. -/
def OnePrefix (s : Scope) : Prop :=
  ∀ q u v, (⟨some q, u⟩ : Declaration) ∈ s → (⟨some q, v⟩ : Declaration) ∈ s → u = v

/-- Two scopes have the same declarations with a qualifier. -/
def SamePrefixes (s t : Scope) : Prop :=
  ∀ q u, (⟨some q, u⟩ : Declaration) ∈ s ↔ (⟨some q, u⟩ : Declaration) ∈ t

theorem onePrefix_of_nodup (distinct : (own.filterMap Declaration.qualifier).Nodup) :
    OnePrefix own := by
  intro q u v first second
  induction own with
  | nil => cases first
  | cons d rest ih =>
      cases named : d.qualifier with
      | none =>
          rw [List.filterMap_cons_none named] at distinct
          have behind {w : String} (member : (⟨some q, w⟩ : Declaration) ∈ d :: rest) :
              (⟨some q, w⟩ : Declaration) ∈ rest :=
            (List.mem_cons.1 member).resolve_left fun same => by simp [← same] at named
          exact ih distinct (behind first) (behind second)
      | some r =>
          rw [List.filterMap_cons_some named, List.nodup_cons] at distinct
          have absent {w : String} (member : (⟨some r, w⟩ : Declaration) ∈ rest) : False :=
            distinct.1 (List.mem_filterMap.2 ⟨_, member, rfl⟩)
          rcases List.mem_cons.1 first with here | later
          · subst here
            rcases List.mem_cons.1 second with same | later
            · exact (Declaration.mk.inj same).2.symm
            · cases named
              exact (absent later).elim
          · rcases List.mem_cons.1 second with here | later'
            · subst here
              cases named
              exact (absent later).elim
            · exact ih distinct.2 later later'

theorem OnePrefix.eq (one : OnePrefix s) (member : (⟨some q, u⟩ : Declaration) ∈ s) :
    ∀ e ∈ s, e.qualifier = some q → e = ⟨some q, u⟩ := by
  rintro ⟨r, v⟩ other rfl
  rw [one q v u other member]

theorem OnePrefix.extend (one : OnePrefix own) (outer : OnePrefix inherited) :
    OnePrefix (extend own inherited) := by
  intro q u v first second
  rcases of_mem_extend first with first | ⟨first, free⟩ <;>
    rcases of_mem_extend second with second | ⟨second, free'⟩
  · exact one q u v first second
  · exact (free' _ first rfl).elim
  · exact (free _ second rfl).elim
  · exact outer q u v first second

theorem mem_extend_iff (outer : OnePrefix inherited) :
    (⟨some q, u⟩ : Declaration) ∈ extend own inherited ↔
      (⟨some q, u⟩ : Declaration) ∈ own ∨
        ((⟨some q, u⟩ : Declaration) ∈ inherited ∧ ∀ e ∈ own, e.qualifier ≠ some q) := by
  refine ⟨of_mem_extend, fun member => ?_⟩
  rcases member with member | ⟨member, free⟩
  · exact mem_extend_own member
  · exact mem_extend_inherited member free (outer.eq member)

/-- A qualifier that is declared once stands for the namespace of its declaration. -/
theorem uri?_of_mem (one : OnePrefix s) (member : (⟨some q, u⟩ : Declaration) ∈ s) :
    s.uri? (some q) = some u := by
  rw [uri?]
  cases found : s.find? fun d => d.qualifier == some q with
  | none => simpa using List.find?_eq_none.1 found _ member
  | some d =>
      have named : d.qualifier = some q := by simpa using List.find?_some found
      rw [one.eq member d (List.mem_of_find?_eq_some found) named]
      rfl

theorem mem_of_uri? {qualifier : Option String} (found : s.uri? qualifier = some u) :
    (⟨qualifier, u⟩ : Declaration) ∈ s := by
  obtain ⟨d, here, rfl⟩ := Option.map_eq_some_iff.1 found
  have named : d.qualifier = qualifier := by simpa using List.find?_some here
  rw [← named]
  exact List.mem_of_find?_eq_some here

/-- A namespace that is declared once is written by its declaration. -/
theorem find?_uri_of_mem (distinct : (s.map Declaration.uri).Nodup) (member : d ∈ s) :
    (s.find? fun e => e.uri == d.uri) = some d := by
  cases found : s.find? fun e => e.uri == d.uri with
  | none => simpa using List.find?_eq_none.1 found _ member
  | some e =>
      have same : e.uri = d.uri := by simpa using List.find?_some found
      exact congrArg some
        (List.inj_on_of_nodup_map distinct (List.mem_of_find?_eq_some found) member same)

/-! ## New declarations -/

/-- An element writes its own declarations only. -/
theorem fresh_extend (own inherited : Scope) :
    (extend own inherited).fresh inherited = own.filter fun d => !inherited.contains d := by
  rw [fresh, extend_eq, List.filter_append]
  have none : (if own.isEmpty then inherited else kept own inherited).filter
      (fun d => !inherited.contains d) = [] := by
    rw [List.filter_eq_nil_iff]
    intro d member
    have inside : d ∈ inherited := by
      split at member
      · exact member
      · exact (of_mem_kept member).1
    simpa using inside
  rw [none, List.append_nil]

end Infographic.Markup.Scope
