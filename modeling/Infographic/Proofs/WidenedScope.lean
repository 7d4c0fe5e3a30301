/-
# Infographic.Proofs.WidenedScope -- one more declaration in scope

A scope is widened by a declaration whose qualifier it does not declare, and behind which
nothing declares the same namespace.  Whatever is resolved in a scope is resolved in the wider
one, to the same name: the declaration is never asked for by its qualifier, and never the first
for its namespace.  Scopes inside stay widened, or are the same where an element declares the
qualifier itself.
-/
import Infographic.Proofs.StandingNames

namespace Infographic.Markup

set_option autoImplicit false

namespace Scope

/-- A scope, and the same scope or one with one more declaration in it. -/
inductive Widened (d : Declaration) : Scope → Scope → Prop
  | same (s : Scope) : Widened d s s
  | added {before after : Scope}
      (unbound : ∀ e ∈ before ++ after, e.qualifier ≠ d.qualifier)
      (last : ∀ e ∈ after, e.uri ≠ d.uri) : Widened d (before ++ after) (before ++ d :: after)

variable {d : Declaration} {s s' own : Scope}

/-! ## Scopes inside -/

theorem kept_append (s first second : Scope) :
    kept s (first ++ second) = kept s first ++ kept (s ++ kept s first) second := by
  induction first generalizing s with
  | nil => simp [kept]
  | cons e first ih =>
      rw [List.cons_append, kept, kept]
      split
      · exact ih s
      · rw [ih, List.cons_append, List.append_assoc, List.singleton_append]

/-- A declaration keeps back only others for its qualifier. -/
theorem kept_insert (first second : Scope) {rest : Scope}
    (others : ∀ e ∈ rest, e.qualifier ≠ d.qualifier) :
    kept (first ++ d :: second) rest = kept (first ++ second) rest := by
  induction rest generalizing second with
  | nil => rfl
  | cons e rest ih =>
      have other : (d.qualifier == e.qualifier) = false := by
        simpa using Ne.symm (others e List.mem_cons_self)
      have later := ih (second ++ [e]) fun f member => others f (List.mem_cons_of_mem e member)
      rw [← List.append_assoc] at later
      have whole : first ++ d :: second ++ [e] = first ++ d :: (second ++ [e]) := by simp
      rw [kept, kept, whole, later, ih second fun f member =>
        others f (List.mem_cons_of_mem e member)]
      simp only [List.any_append, List.any_cons, other, Bool.false_or]

theorem Widened.extend (widened : Widened d s s') (own : Scope) :
    Widened d (extend own s) (extend own s') := by
  cases widened with
  | same => exact .same _
  | @added before after unbound last =>
      rw [extend_eq, extend_eq]
      by_cases none : own = []
      · subst none
        exact .added unbound last
      have some : own.isEmpty = false := List.isEmpty_eq_false_iff.2 none
      have behind : ∀ e ∈ after, e.qualifier ≠ d.qualifier := fun e member =>
        unbound e (List.mem_append_right _ member)
      simp only [some, Bool.false_eq_true, if_false, kept_append]
      rw [kept]
      split
      · exact .same _
      · rename_i free
        have same : kept (own ++ kept own before ++ [d]) after =
            kept (own ++ kept own before) after := by
          have inserted := kept_insert (own ++ kept own before) [] behind
          rwa [List.append_nil] at inserted
        rw [same, ← List.append_assoc, ← List.append_assoc]
        refine .added (fun e member => ?_) fun e member => last e (of_mem_kept member).1
        rcases List.mem_append.1 member with inside | inside
        · simpa using fun equal : e.qualifier = d.qualifier =>
            free (List.any_eq_true.2 ⟨e, inside, by simpa using equal⟩)
        · exact behind e (of_mem_kept inside).1

/-! ## Looking up -/

theorem Widened.uri?_eq (widened : Widened d s s') {qualifier : Option String}
    (other : qualifier ≠ d.qualifier) : s'.uri? qualifier = s.uri? qualifier := by
  cases widened with
  | same => rfl
  | added =>
      have no : (d.qualifier == qualifier) = false := by simpa using Ne.symm other
      rw [uri?, uri?, List.find?_append, List.find?_append, List.find?_cons_of_neg (by simp [no])]

/-- A qualifier stands for the same namespace in a wider scope. -/
theorem Widened.uri?_of_some (widened : Widened d s s') {qualifier : Option String} {u : String}
    (found : s.uri? qualifier = some u) : s'.uri? qualifier = some u := by
  by_cases here : qualifier = d.qualifier
  · cases widened with
    | same => exact found
    | added unbound => exact absurd here.symm (unbound _ (mem_of_uri? found)).symm
  · rw [widened.uri?_eq here, found]

/-- A namespace in scope is written by the same qualifier in a wider scope. -/
theorem Widened.written_eq (widened : Widened d s s') {e : Declaration} (member : e ∈ s)
    (localName : String) : s'.written e.uri localName = s.written e.uri localName := by
  have same : s'.qualifierFor? e.uri = s.qualifierFor? e.uri := by
    cases widened with
    | same => rfl
    | @added before after unbound last =>
        rw [qualifierFor?, qualifierFor?]
        split
        · rfl
        · have first : (before ++ d :: after).find? (fun f => f.uri == e.uri) =
              (before ++ after).find? fun f => f.uri == e.uri := by
            by_cases same : e.uri = d.uri
            · -- The namespace is declared before, as nothing behind declares it.
              have inside : e ∈ before := (List.mem_append.1 member).resolve_right fun behind =>
                last e behind same
              have found : (before.find? fun f => f.uri == e.uri).isSome = true :=
                List.find?_isSome.2 ⟨e, inside, by simp⟩
              obtain ⟨f, found⟩ := Option.isSome_iff_exists.1 found
              rw [List.find?_append, List.find?_append, found]
              rfl
            · have no : (d.uri == e.uri) = false := by simpa using Ne.symm same
              rw [List.find?_append, List.find?_append, List.find?_cons_of_neg (by simp [no])]
          rw [first]
  rw [written, written, same]

/-- The namespace of an attribute, and how the attribute is written. -/
theorem Widened.attribute (widened : Widened d s s') {a : RawAttribute} {uri : Option String}
    (found : attributeNamespace s a = some uri) (localName : String) :
    attributeNamespace s' a = some uri ∧ s'.key uri localName = s.key uri localName := by
  rw [attributeNamespace] at found ⊢
  split at found
  · rename_i reserved
    cases found
    have xml (t : Scope) : t.written xmlNamespace localName = "xml" ++ ":" ++ localName :=
      written_of_some (if_pos rfl)
        ⟨by decide, List.all_eq_true.1 (by decide), by decide⟩ localName
    exact ⟨if_pos reserved, (xml s').trans (xml s).symm⟩
  · rename_i other
    split at found
    · rename_i unqualified
      cases found
      exact ⟨by rw [if_neg other, if_pos unqualified], rfl⟩
    · rename_i qualified
      obtain ⟨u, here, rfl⟩ := Option.map_eq_some_iff.1 found
      rw [if_neg other, if_neg qualified, widened.uri?_of_some here]
      exact ⟨rfl, widened.written_eq (mem_of_uri? here) localName⟩

theorem Widened.resolveAttributes (widened : Widened d s s') {attributes : List RawAttribute}
    {out : List (String × String)} (resolved : resolveAttributes s attributes = some out) :
    Markup.resolveAttributes s' attributes = some out := by
  obtain ⟨names, each, distinct, rfl⟩ := resolveAttributes_eq_some_iff.1 resolved
  refine resolveAttributes_eq_some_iff.2 ⟨names, each.imp fun a r found =>
    ⟨(widened.attribute found.1 "").1, found.2⟩, distinct, List.map_congr_left fun r member => ?_⟩
  obtain ⟨a, -, found, -⟩ := exists_of_mem_forall₂ each r member
  rw [(widened.attribute found r.2.1).2]

theorem Widened.resolveTag (widened : Widened d s s') (qualified : d.qualifier ≠ none)
    {name : QualifiedName} {tag : String} (resolved : resolveTag s name = some tag) :
    Markup.resolveTag s' name = some tag := by
  rw [Markup.resolveTag] at resolved ⊢
  split at resolved
  · rename_i unqualified
    rw [if_pos unqualified, widened.uri?_eq qualified.symm]
    split at resolved
    · rename_i u found
      exact (congrArg some (widened.written_eq (mem_of_uri? found) _)).trans resolved
    · exact resolved
  · rename_i qualifier
    obtain ⟨u, found, written⟩ := Option.map_eq_some_iff.1 resolved
    rw [if_neg qualifier, widened.uri?_of_some found, Option.map_some, ← written]
    exact congrArg some (widened.written_eq (mem_of_uri? found) _)

theorem Widened.mem_iff (widened : Widened d s s') {e : Declaration} (other : e ≠ d) :
    e ∈ s' ↔ e ∈ s := by
  cases widened with
  | same => rfl
  | added => simp [other]

/-! ## Resolving start tags -/

end Scope

/-- The attributes of an element but those under one name. -/
def dropKey (key : String) (attributes : List (String × String)) : List (String × String) :=
  attributes.filter fun a => a.1 != key

theorem dropKey_append (key : String) (first second : List (String × String)) :
    dropKey key (first ++ second) = dropKey key first ++ dropKey key second :=
  List.filter_append ..

mutual

/-- A tree without the attributes under one name. -/
def Tree.without (key : String) : Tree → Tree
  | .element tag attributes children =>
      .element tag (dropKey key attributes) (withoutAll key children)
  | .text s => .text s

/-- Some trees without the attributes under one name. -/
def withoutAll (key : String) : List Tree → List Tree
  | [] => []
  | t :: rest => t.without key :: withoutAll key rest

end

theorem withoutAll_eq_map (key : String) (ts : List Tree) :
    withoutAll key ts = ts.map (Tree.without key) := by
  induction ts with
  | nil => rfl
  | cons t ts ih => rw [withoutAll, ih, List.map_cons]

/-- Two open elements differ by attributes under one name, and by a declaration in scope. -/
structure OpenElement.Alike (d : Declaration) (e e' : OpenElement) : Prop where
  name : e'.name = e.name
  tag : e'.tag = e.tag
  attributes : dropKey d.toAttribute.1 e'.attributes = dropKey d.toAttribute.1 e.attributes
  scope : Scope.Widened d e.scope e'.scope
  children : e'.children.map (Tree.without d.toAttribute.1) =
    e.children.map (Tree.without d.toAttribute.1)

/-- What an element declares anew is the same but for one name. -/
theorem Scope.Widened.fresh {d : Declaration} {s s' : Scope} (widened : Widened d s s')
    (own : Scope) :
    dropKey d.toAttribute.1 (((Scope.extend own s').fresh s').map Declaration.toAttribute) =
      dropKey d.toAttribute.1 (((Scope.extend own s).fresh s).map Declaration.toAttribute) := by
  rw [fresh_extend, fresh_extend, dropKey, dropKey, List.filter_map, List.filter_map,
    List.filter_filter, List.filter_filter]
  refine congrArg _ (List.filter_congr fun e _ => ?_)
  by_cases key : e.toAttribute.1 = d.toAttribute.1
  · simp [key]
  · have other : e ≠ d := fun same => key (same ▸ rfl)
    have known : s'.contains e = s.contains e := by
      rw [Bool.eq_iff_iff, List.contains_iff_mem, List.contains_iff_mem, widened.mem_iff other]
    rw [known]

/-- A start tag is resolved alike in a wider scope. -/
theorem Scope.Widened.resolve {d : Declaration} {s s' : Scope} (widened : Widened d s s')
    (qualified : d.qualifier ≠ none) {name : QualifiedName} {sorted : SortedAttributes}
    {e : OpenElement} (resolved : s.resolve name sorted = some e) :
    ∃ e', s'.resolve name sorted = some e' ∧ e.Alike d e' := by
  obtain ⟨plain, tag, attributes, tagged, rfl⟩ := resolve_eq_some_iff.1 resolved
  have wider := widened.extend sorted.declarations
  refine ⟨_, resolve_eq_some_iff.2 ⟨plain, tag, wider.resolveAttributes attributes,
    wider.resolveTag qualified tagged, rfl⟩, rfl, rfl, ?_, wider, rfl⟩
  have declared := widened.fresh sorted.declarations
  rw [dropKey_append, dropKey_append, declared]

end Infographic.Markup
