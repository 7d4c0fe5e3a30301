/-
# Infographic.Proofs.RootDeclaration -- one more declaration in the root tag

A declaration of a qualifier that the root tag does not declare is put anywhere among its
attributes, with no declaration of the same namespace behind it.  Then every name is resolved as
before: the trees that are read differ by the attribute that makes the declaration only
(`read_declared`).
-/
import Infographic.Proofs.AlikeReading
import Infographic.Proofs.AttributeValues
import Infographic.Proofs.WrittenMarkup

namespace Infographic.Markup

set_option autoImplicit false

/-! ## Sorting out one more declaration -/

/-- Names of attributes that declare a namespace. -/
def IsDeclaration (name : QualifiedName) : Prop :=
  name.qualifier = "xmlns".toList ∨ name.localName = "xmlns".toList

theorem Scope.Widened.concat {d e : Declaration} {s s' : Scope} (widened : Widened d s s')
    (unbound : e.qualifier ≠ d.qualifier) (last : e.uri ≠ d.uri) :
    Widened d (s ++ [e]) (s' ++ [e]) := by
  cases widened with
  | same => exact .same _
  | @added before after others behind =>
      rw [List.append_assoc, List.append_assoc, List.cons_append]
      refine .added (fun f member => ?_) fun f member => ?_
      · rw [← List.append_assoc] at member
        rcases List.mem_append.1 member with old | new
        · exact others f old
        · rwa [List.mem_singleton.1 new]
      · rcases List.mem_append.1 member with old | new
        · exact behind f old
        · rwa [List.mem_singleton.1 new]

/-- Sorted attributes, and the same with one more declaration. -/
structure SortedAttributes.Widened (d : Declaration) (s s' : SortedAttributes) : Prop where
  attributes : s'.attributes = s.attributes
  declarations : Scope.Widened d s.declarations s'.declarations

namespace SortedAttributes.Widened

variable {d : Declaration} {s s' t : SortedAttributes}

/-- A qualifier that is not declared is not declared by another declaration. -/
theorem unbound (wider : Widened d s s') {q : String} (other : d.qualifier ≠ some q)
    (free : ∀ e ∈ s.declarations, e.qualifier ≠ some q) :
    ∀ e ∈ s'.declarations, e.qualifier ≠ some q := by
  obtain ⟨-, declarations⟩ := wider
  generalize s.declarations = scope at declarations free
  generalize s'.declarations = scope' at declarations ⊢
  cases declarations with
  | same => exact free
  | added =>
      intro e member
      rcases List.mem_append.1 member with before | after
      · exact free e (List.mem_append_left _ before)
      · rcases List.mem_cons.1 after with rfl | after
        · exact other
        · exact free e (List.mem_append_right _ after)

theorem add (wider : Widened d s s') (qualified : d.qualifier ≠ .none) {a : RawAttribute}
    (fresh : a.name.qualifier = "xmlns".toList →
      d.qualifier ≠ some (String.ofList a.name.localName))
    (last : IsDeclaration a.name → a.value ≠ d.uri) (sorts : s.add a = some t) :
    ∃ t', s'.add a = some t' ∧ Widened d t t' := by
  have declare {e : Declaration} (unbound : e.qualifier ≠ d.qualifier) (other : e.uri ≠ d.uri) :
      Widened d { s with declarations := s.declarations ++ [e] }
        { s' with declarations := s'.declarations ++ [e] } :=
    ⟨wider.attributes, wider.declarations.concat unbound other⟩
  simp only [SortedAttributes.add_iff]
  cases SortedAttributes.add_iff.1 sorts with
  | xml declares named value free =>
      exact ⟨s', .xml declares named value (wider.unbound (fresh declares) free), wider⟩
  | qualified declares named allowed free =>
      exact ⟨_, .qualified declares named allowed (wider.unbound (fresh declares) free),
        declare (Ne.symm (fresh declares)) (last (.inl declares))⟩
  | default declares named allowed =>
      exact ⟨_, .default declares named allowed, declare (Ne.symm qualified) (last (.inr named))⟩
  | plain declares named =>
      refine ⟨_, .plain declares named, ?_, wider.declarations⟩
      rw [wider.attributes]

theorem addAll (wider : Widened d s s') (qualified : d.qualifier ≠ .none)
    {attributes : List RawAttribute}
    (fresh : ∀ a ∈ attributes, a.name.qualifier = "xmlns".toList →
      d.qualifier ≠ some (String.ofList a.name.localName))
    (last : ∀ a ∈ attributes, IsDeclaration a.name → a.value ≠ d.uri)
    (sorts : s.addAll attributes = some t) :
    ∃ t', s'.addAll attributes = some t' ∧ Widened d t t' := by
  induction attributes generalizing s s' with
  | nil =>
      cases sorts
      exact ⟨s', rfl, wider⟩
  | cons a others ih =>
      obtain ⟨next, first, later⟩ := Option.bind_eq_some_iff.1 sorts
      obtain ⟨next', first', wider'⟩ := wider.add qualified (fresh a List.mem_cons_self)
        (last a List.mem_cons_self) first
      obtain ⟨t', later', wider''⟩ := ih wider' (fun b member => fresh b (List.mem_cons_of_mem a member))
        (fun b member => last b (List.mem_cons_of_mem a member)) later
      refine ⟨t', ?_, wider''⟩
      rw [SortedAttributes.addAll, List.foldlM_cons, first']
      exact later'

end SortedAttributes.Widened

/-! ## Resolving the root tag -/

theorem Scope.Widened.dropKey {d : Declaration} {s s' : Scope} (widened : Widened d s s') :
    dropKey d.toAttribute.1 (s'.map Declaration.toAttribute) =
      dropKey d.toAttribute.1 (s.map Declaration.toAttribute) := by
  cases widened with
  | same => rfl
  | added =>
      have gone : Markup.dropKey d.toAttribute.1 [d.toAttribute] = [] := by simp [Markup.dropKey]
      rw [List.map_append, List.map_append, List.map_cons, dropKey_append, dropKey_append,
        ← List.singleton_append, dropKey_append, gone, List.nil_append]

theorem extend_nil (own : Scope) : Scope.extend own [] = own := by
  rw [Scope.extend]
  split
  · rename_i none
    rw [List.isEmpty_iff.1 none]
  · rfl

theorem fresh_nil (s : Scope) : s.fresh [] = s := by simp [Scope.fresh]

/-- The root tag is resolved alike with one more declaration. -/
theorem SortedAttributes.Widened.resolve {d : Declaration} {s s' : SortedAttributes}
    (wider : Widened d s s') (qualified : d.qualifier ≠ .none) {name : QualifiedName}
    {e : OpenElement} (resolved : Scope.resolve [] name s = some e) :
    ∃ e', Scope.resolve [] name s' = some e' ∧ e.Alike d e' := by
  obtain ⟨plain, tag, attributes, tagged, rfl⟩ := Scope.resolve_eq_some_iff.1 resolved
  rw [extend_nil] at attributes tagged
  refine ⟨_, Scope.resolve_eq_some_iff.2 ⟨plain, tag, ?_, ?_, rfl⟩, rfl, rfl, ?_, ?_, rfl⟩
  · rw [extend_nil, wider.attributes]
    exact wider.declarations.resolveAttributes attributes
  · rw [extend_nil]
    exact wider.declarations.resolveTag qualified tagged
  · rw [extend_nil, extend_nil, fresh_nil, fresh_nil, dropKey_append, dropKey_append,
      wider.declarations.dropKey]
  · rw [extend_nil, extend_nil]
    exact wider.declarations

/-- Only the declarations of a qualifier are made under its name. -/
theorem Declaration.qualifier_of_key {d e : Declaration} {q : String}
    (qualifier : d.qualifier = some q) (same : e.toAttribute.1 = d.toAttribute.1) :
    e.qualifier = some q := by
  have key : d.toAttribute.1 = (Declaration.toAttribute ⟨some q, e.uri⟩).1 := by
    rw [Declaration.toAttribute, qualifier]
    rfl
  have whole : e.toAttribute = Declaration.toAttribute ⟨some q, e.uri⟩ :=
    Prod.ext (same.trans key) e.toAttribute_snd
  have found := Declaration.ofAttribute?_toAttribute e
  rw [whole, Declaration.ofAttribute?_toAttribute] at found
  rw [← Option.some.inj found]

theorem QualifiedName.eq_xmlns {name : QualifiedName} {q : String}
    (xmlns : name.qualifier = "xmlns".toList) (same : String.ofList name.localName = q) :
    name = ⟨"xmlns".toList, q.toList⟩ := by
  have back : (String.ofList name.localName).toList = name.localName := String.toList_ofList
  rw [← same, back, ← xmlns]

/-- Sorting out an attribute makes a declaration, or keeps the attribute, or drops it. -/
theorem SortedAttributes.add_cases {s t : SortedAttributes} {a : RawAttribute}
    (sorts : s.add a = some t) :
    t.declarations = s.declarations ∨
      ∃ e : Declaration, t.declarations = s.declarations ++ [e] ∧
        ∀ q, e.qualifier = some q → a.name = ⟨"xmlns".toList, q.toList⟩ := by
  cases SortedAttributes.add_iff.1 sorts with
  | xml => exact .inl rfl
  | qualified declares =>
      exact .inr ⟨_, rfl, fun q same => QualifiedName.eq_xmlns declares (Option.some.inj same)⟩
  | default => exact .inr ⟨_, rfl, fun q unqualified => by cases unqualified⟩
  | plain => exact .inl rfl

theorem SortedAttributes.unbound_addAll {s t : SortedAttributes} {attributes : List RawAttribute}
    {q : String} (fresh : ∀ a ∈ attributes, a.name ≠ ⟨"xmlns".toList, q.toList⟩)
    (unbound : ∀ e ∈ s.declarations, e.qualifier ≠ some q)
    (sorts : s.addAll attributes = some t) : ∀ e ∈ t.declarations, e.qualifier ≠ some q := by
  induction attributes generalizing s with
  | nil =>
      cases sorts
      exact unbound
  | cons a others ih =>
      obtain ⟨next, first, later⟩ := Option.bind_eq_some_iff.1 sorts
      refine ih (fun b member => fresh b (List.mem_cons_of_mem a member)) ?_ later
      rcases SortedAttributes.add_cases first with same | ⟨e, same, declares⟩
      · rwa [same]
      · rw [same]
        intro f member
        rcases List.mem_append.1 member with old | new
        · exact unbound f old
        · rw [List.mem_singleton.1 new]
          exact fun here => fresh a List.mem_cons_self (declares q here)

/-- **A declaration among the attributes of a tag** is sorted out among the other ones. -/
theorem SortedAttributes.exists_widened {d : Declaration} (proper : d.Proper) {q : String}
    (qualifier : d.qualifier = some q) {first second : List RawAttribute} {t : SortedAttributes}
    (fresh : ∀ a ∈ first ++ second, a.name ≠ ⟨"xmlns".toList, q.toList⟩)
    (last : ∀ a ∈ second, IsDeclaration a.name → a.value ≠ d.uri)
    (sorts : SortedAttributes.none.addAll (first ++ second) = some t) :
    ∃ t', SortedAttributes.none.addAll (first ++ ⟨d.rawName, d.uri⟩ :: second) = some t' ∧
      SortedAttributes.Widened d t t' := by
  rw [SortedAttributes.addAll, List.foldlM_append] at sorts
  obtain ⟨middle, before, after⟩ := Option.bind_eq_some_iff.1 sorts
  have unbound : ∀ e ∈ middle.declarations, e.qualifier ≠ some q :=
    SortedAttributes.unbound_addAll (fun a member => fresh a (List.mem_append_left _ member))
      (by simp [SortedAttributes.none]) before
  have here : middle.add ⟨d.rawName, d.uri⟩ =
      some { middle with declarations := middle.declarations ++ [d] } :=
    SortedAttributes.add_declaration proper fun e member same =>
      unbound e member (Declaration.qualifier_of_key qualifier same)
  have wider : SortedAttributes.Widened d middle
      { middle with declarations := middle.declarations ++ [d] } := by
    refine ⟨rfl, ?_⟩
    have added : Scope.Widened d (middle.declarations ++ []) (middle.declarations ++ d :: []) :=
      .added (by simpa [qualifier] using unbound) (by simp)
    rwa [List.append_nil] at added
  obtain ⟨t', later, wider'⟩ := wider.addAll (by simp [qualifier])
    (fun a member xmlns same => fresh a (List.mem_append_right _ member)
      (QualifiedName.eq_xmlns xmlns (Option.some.inj (same.symm.trans qualifier)))) last after
  refine ⟨t', ?_, wider'⟩
  rw [SortedAttributes.addAll, List.foldlM_append]
  exact Option.bind_eq_some_iff.2 ⟨middle, before, Option.bind_eq_some_iff.2 ⟨_, here, later⟩⟩

/-- A root tag with one more declaration opens an element alike, or is one. -/
theorem alike_addStartTag {d : Declaration} (qualified : d.qualifier ≠ none) {entities : Entities}
    {name : QualifiedName} {attributes attributes' : List RawAttribute} {ending : TagEnd}
    {opened : State} (whole : ending ≠ .broken)
    (sorted : ∀ t, SortedAttributes.none.addAll attributes = some t →
      ∃ t', SortedAttributes.none.addAll attributes' = some t' ∧ SortedAttributes.Widened d t t')
    (added : { State.start with entities, nesting := .none }.addStartTag name attributes ending =
      some opened) :
    ∃ opened', { State.start with entities, nesting := .none }.addStartTag name attributes' ending =
      some opened' ∧ State.Alike d opened opened' := by
  simp only [State.addStartTag_iff]
  cases State.addStartTag_iff.1 added with
  | broken => exact absurd rfl whole
  | @empty t e declares sorts resolved =>
      obtain ⟨t', sorts', wider⟩ := sorted t sorts
      obtain ⟨e', resolved', same⟩ := wider.resolve qualified resolved
      have leaf : (Tree.element e'.tag e'.attributes []).without d.toAttribute.1 =
          (Tree.element e.tag e.attributes []).without d.toAttribute.1 := by
        rw [Tree.without, Tree.without, same.tag, same.attributes]
      exact ⟨_, .empty declares sorts' resolved', rfl, rfl, rfl, rfl, rfl, .nil,
        congrArg some leaf⟩
  | @opening t e declares sorts resolved =>
      obtain ⟨t', sorts', wider⟩ := sorted t sorts
      obtain ⟨e', resolved', same⟩ := wider.resolve qualified resolved
      exact ⟨_, .opening declares sorts' resolved', rfl, rfl, rfl, rfl, rfl, .cons same .nil, rfl⟩

/-! ## A place in the root tag -/

/-- The text up to a place between the attributes of the root tag, and the text behind it. -/
inductive RootPlace (before after : List Char) (entities : Entities)
    (earlier later : List (QualifiedName × List Char)) : Prop
  | mk {tag behind inside : List Char} {name : QualifiedName} {ending : TagEnd}
      (prolog : readProlog (unmarked (before ++ after)) = some (entities, '<' :: tag))
      (named : QualifiedName.read tag = some (name, behind))
      (place : AttributesRead behind earlier after)
      (rest : readAttributes after.length.succ after = some (later, ending, inside))

theorem unmarked_append {before : List Char} (some : before ≠ []) :
    ∃ start, ∀ after, unmarked (before ++ after) = start ++ after := by
  obtain ⟨c, more, rfl⟩ := List.exists_cons_of_ne_nil some
  refine ⟨unmarked (c :: more), fun after => ?_⟩
  rw [List.cons_append, unmarked, unmarked]
  split <;> rfl

/-- A name is read the same before anything that does not go on with it. -/
theorem QualifiedName.read_beside {cs behind : List Char} {name : QualifiedName}
    (read : QualifiedName.read cs = some (name, behind)) :
    ∃ run, cs = run ++ behind ∧ ∀ other, (∀ c ∈ other.head?, isNameChar c = false) →
      QualifiedName.read (run ++ other) = some (name, other) := by
  obtain ⟨chosen, found, same⟩ := Option.map_eq_some_iff.1 read
  cases same
  obtain ⟨run, cut, taken, chars⟩ := eq_append_dropWhile isNameChar cs
  refine ⟨run, cut, fun other stops => ?_⟩
  rw [taken] at found
  rw [QualifiedName.read, List.takeWhile_append_of_pos chars, List.dropWhile_append_of_pos chars,
    Text.takeWhile_of_head? stops, Text.dropWhile_of_head? stops, List.append_nil, found]
  rfl

theorem isNameChar_of_isSpace {c : Char} (space : isSpace c = true) : isNameChar c = false := by
  rw [Bool.eq_false_iff]
  intro known
  rw [not_isSpace_of_isNameChar known] at space
  cases space

theorem AttributeRead.value_length {cs behind : List Char} {a : QualifiedName × List Char}
    (read : AttributeRead cs a behind) : a.2.length + behind.length ≤ cs.length := by
  obtain ⟨written, lead, run, gap, gap', quote, rfl, text⟩ := exists_attributeText read
  rw [text.whole]
  simp only [List.length_append, List.length_cons]
  omega

/-- A text that declares a qualifier for a namespace when it stands before `after` in a tag. -/
inductive DeclarationText (entities : Entities) (w after : List Char) (q u : String) : Prop
  | mk {value : List Char}
      (read : AttributeRead (w ++ after) (⟨"xmlns".toList, q.toList⟩, value) after)
      (stands : StandsFor entities value u)

section

variable {before after w behind rest : List Char} {entities : Entities}
  {earlier later raw : List (QualifiedName × List Char)} {a : QualifiedName × List Char}
  {ending : TagEnd}

/-- A tag is read up to a place in it, and then on. -/
theorem readAttributes_split (place : AttributesRead behind earlier after)
    (whole : readAttributes behind.length.succ behind = some (raw, ending, rest))
    {ending' : TagEnd} {rest' : List Char}
    (listed : readAttributes after.length.succ after = some (later, ending', rest')) :
    raw = earlier ++ later ∧ ending' = ending ∧ rest' = rest := by
  obtain ⟨others, left, -, rfl, found⟩ := place.exists_later whole
  have one := readAttributes_mono (Nat.le_max_left left after.length.succ) found
  have two := readAttributes_mono (Nat.le_max_right left after.length.succ) listed
  cases one.symm.trans two
  exact ⟨rfl, rfl, rfl⟩

/-- An attribute put at a place of a tag is read between the other ones. -/
theorem readAttributes_insert (place : AttributesRead behind earlier after)
    (inserted : AttributeRead (w ++ after) a after)
    (listed : readAttributes after.length.succ after = some (later, ending, rest)) :
    ∃ start, behind = start ++ after ∧
      (∀ c ∈ (start ++ (w ++ after)).head?, isSpace c = true) ∧
      readAttributes (start ++ (w ++ after)).length.succ (start ++ (w ++ after)) =
        some (earlier ++ a :: later, ending, rest) := by
  obtain ⟨start, rfl, first, shorter, elsewhere⟩ := place.beside
  obtain ⟨c, more, cut, space, -⟩ := inserted.beside
  obtain rfl := List.append_cancel_right cut
  have next : readAttributes (after.length.succ + 1) (c :: more ++ after) =
      some (a :: later, ending, rest) :=
    readAttributes_iff.2 (.more inserted listed)
  have whole := (elsewhere (c :: more ++ after)).readAttributes next
  refine ⟨start, rfl, ?_, readAttributes_mono ?_ whole⟩
  · cases start with
    | nil => simpa using space
    | cons d start => simpa using first
  · simp only [List.length_append, List.length_cons]
    omega

/-- The values of the attributes of a tag with a declaration at a place of it. -/
theorem normalizeAttributes_insert {fuel more longest : Nat} {nesting : Nesting}
    {attributes : List RawAttribute} {name : QualifiedName} {value : List Char} {u : String}
    (normal : normalizeAttributes entities fuel .none (earlier ++ later) =
      some (nesting, attributes))
    (stands : StandsFor entities value u) (short : ∀ e ∈ entities, e.2.length ≤ longest)
    (inside : value.length ≤ longest) (enough : 11 * (longest + 1) ≤ more) (room : fuel ≤ more) :
    ∃ first second, attributes = first ++ second ∧
      normalizeAttributes entities more .none (earlier ++ (name, value) :: later) =
        some (.none, first ++ ⟨name, u⟩ :: second) ∧
      List.Forall₂ (fun a b => b.name = a.1 ∧ StandsFor entities a.2 b.value) earlier first ∧
      List.Forall₂ (fun a b => b.name = a.1 ∧ StandsFor entities a.2 b.value) later second := by
  obtain ⟨mid, first, before, second, after, rfl⟩ := normalizeAttributes_append.1 normal
  obtain rfl := normalizeAttributes_none before
  obtain rfl := normalizeAttributes_none after
  obtain ⟨acc, here, rfl⟩ := stands.normalizeValue short inside enough
  refine ⟨first, second, rfl, ?_, standsFor_of_normalized before, standsFor_of_normalized after⟩
  exact normalizeAttributes_append.2 ⟨.none, first, normalizeAttributes_mono room before, _,
    normalizeAttributes_cons.2 ⟨.none, acc, here, second, normalizeAttributes_mono room after, rfl⟩,
    rfl⟩

/-- A declaration is sorted out among attributes whose values stand in the text. -/
theorem exists_widened_of_stands {d : Declaration} (proper : d.Proper) {q : String}
    (qualifier : d.qualifier = some q) {first second : List RawAttribute} {t : SortedAttributes}
    (firsts : List.Forall₂ (fun a b => b.name = a.1 ∧ StandsFor entities a.2 b.value) earlier first)
    (seconds : List.Forall₂ (fun a b => b.name = a.1 ∧ StandsFor entities a.2 b.value) later second)
    (fresh : ∀ a ∈ earlier ++ later, a.1 ≠ ⟨"xmlns".toList, q.toList⟩)
    (last : ∀ a ∈ later, IsDeclaration a.1 → ¬ StandsFor entities a.2 d.uri)
    (sorts : SortedAttributes.none.addAll (first ++ second) = some t) :
    ∃ t', SortedAttributes.none.addAll (first ++ ⟨d.rawName, d.uri⟩ :: second) = some t' ∧
      SortedAttributes.Widened d t t' := by
  refine SortedAttributes.exists_widened proper qualifier (fun b member => ?_)
    (fun b member declares same => ?_) sorts
  · rcases List.mem_append.1 member with inside | inside
    · obtain ⟨a, known, same, -⟩ := exists_of_mem_forall₂ firsts b inside
      rw [same]
      exact fresh a (List.mem_append_left _ known)
    · obtain ⟨a, known, same, -⟩ := exists_of_mem_forall₂ seconds b inside
      rw [same]
      exact fresh a (List.mem_append_right _ known)
  · obtain ⟨a, known, sameName, standsFor⟩ := exists_of_mem_forall₂ seconds b member
    rw [same] at standsFor
    exact last a known (sameName ▸ declares) standsFor

/-- What stands before a place in the root tag, and how the text is read with more at the place. -/
theorem readProlog_insert {tag : List Char} {name : QualifiedName}
    (prolog : readProlog (unmarked (before ++ after)) = some (entities, '<' :: tag))
    (named : QualifiedName.read tag = some (name, behind))
    (place : AttributesRead behind earlier after)
    (inserted : AttributeRead (w ++ after) a after)
    (listed : readAttributes after.length.succ after = some (later, ending, rest)) :
    ∃ tag' behind' lead, unmarked (before ++ (w ++ after)) = lead ++ (w ++ after) ∧
      unmarked (before ++ after) = lead ++ after ∧
      readProlog (unmarked (before ++ (w ++ after))) = some (entities, '<' :: tag') ∧
      QualifiedName.read tag' = some (name, behind') ∧
      readAttributes behind'.length.succ behind' = some (earlier ++ a :: later, ending, rest) := by
  obtain ⟨start, rfl, spaced, listed'⟩ := readAttributes_insert place inserted listed
  obtain ⟨run, rfl, elsewhere⟩ := QualifiedName.read_beside named
  have named' := elsewhere _ fun c first => isNameChar_of_isSpace (spaced c first)
  have tagged (behind : List Char) (read : QualifiedName.read (run ++ behind) = some (name, behind)) :
      StartsTag ('<' :: (run ++ behind)) := by
    obtain ⟨c, more, begins, first⟩ := QualifiedName.exists_of_read read
    exact ⟨c, more, by rw [begins], first⟩
  have longer : ('<' :: (run ++ (start ++ after))).length ≤
      ('<' :: (run ++ (start ++ (w ++ after)))).length := by
    simp only [List.length_cons, List.length_append]
    omega
  obtain ⟨used, whole, prolog'⟩ :=
    readProlog_beside (tagged _ named) (tagged _ named') longer prolog
  have some : before ≠ [] := by
    rintro rfl
    have short : (unmarked after).length ≤ after.length := by
      cases after with
      | nil => simp [unmarked]
      | cons c more =>
          rw [unmarked]
          split <;> simp
    rw [List.nil_append] at whole
    rw [whole] at short
    simp only [List.length_append, List.length_cons] at short
    omega
  obtain ⟨lead, unmarks⟩ := unmarked_append some
  have same : lead = used ++ '<' :: (run ++ start) := by
    have both : lead ++ after = (used ++ '<' :: (run ++ start)) ++ after := by
      rw [← unmarks, whole]
      simp only [List.append_assoc, List.cons_append]
    exact List.append_cancel_right both
  refine ⟨run ++ (start ++ (w ++ after)), _, lead, unmarks _, unmarks _, ?_, named', listed'⟩
  rw [unmarks, same]
  simpa only [List.append_assoc, List.cons_append] using prolog'

/-- A text that declares a qualifier names it. -/
theorem DeclarationText.isPart {q u : String} (declares : DeclarationText entities w after q u) :
    IsPart q.toList := by
  obtain ⟨inserted, -⟩ := declares
  obtain ⟨written, lead, run, gap, gap', quote, -, text⟩ := exists_attributeText inserted
  exact (QualifiedName.proper_of_ofRun text.chars text.named).localName

/-- A tag that is broken off finishes nothing. -/
theorem State.root_of_addStartTag_broken {st opened : State} {name : QualifiedName}
    {attributes : List RawAttribute}
    (added : st.addStartTag name attributes .broken = some opened) : opened.root = st.root := by
  cases addStartTag_iff.1 added
  rfl

/-- What is finished without an open element is finished alike. -/
theorem State.Alike.exists_root {d : Declaration} {st st' : State} {t : Tree}
    (alike : State.Alike d st st') (closed : st.stack = []) (found : st.root = some t) :
    st'.stack = [] ∧ ∃ t', st'.root = some t' ∧
      t'.without d.toAttribute.1 = t.without d.toAttribute.1 := by
  have stack := alike.stack
  have root := alike.root
  rw [closed] at stack
  rw [found, Option.map_some] at root
  obtain ⟨t', found', same⟩ := Option.map_eq_some_iff.1 root
  exact ⟨List.forall₂_nil_left_iff.1 stack, t', found', same⟩

/-- The content behind alike root tags is read alike. -/
theorem State.Alike.content {d : Declaration} {opened opened' last : State} {ending : TagEnd}
    {fuel more : Nat} (alike : State.Alike d opened opened') (qualified : d.qualifier ≠ none)
    (enough : fuel ≤ more) {inside : List Char}
    (content : (match ending with
      | .opening => readContent fuel 0 opened inside
      | .empty | .broken => some (opened, inside)) = some (last, rest)) :
    ∃ last', (match ending with
      | .opening => readContent more 0 opened' inside
      | .empty | .broken => some (opened', inside)) = some (last', rest) ∧
        State.Alike d last last' := by
  cases ending with
  | opening =>
      obtain ⟨last', content', alike'⟩ :=
        (alike_of_read qualified fuel).1 0 opened opened' inside (last, rest) alike content
      exact ⟨last', readContent_mono enough content', alike'⟩
  | empty =>
      cases content
      exact ⟨opened', rfl, alike⟩
  | broken =>
      cases content
      exact ⟨opened', rfl, alike⟩

/-- **One more declaration in the root tag**, of a qualifier that it does not declare and with
none of the same namespace behind it, changes no tag and no other attribute. -/
theorem read_declared {q u : String} {t : Tree} (place : RootPlace before after entities earlier later)
    (declares : DeclarationText entities w after q u) (usual : q ≠ "xml")
    (allowed : u ≠ xmlNamespace ∧ u ≠ xmlnsNamespace)
    (fresh : ∀ a ∈ earlier ++ later, a.1 ≠ ⟨"xmlns".toList, q.toList⟩)
    (last : ∀ a ∈ later, IsDeclaration a.1 → ¬ StandsFor entities a.2 u)
    (read : Tree.read (before ++ after) = some t) :
    ∃ t', Tree.read (before ++ (w ++ after)) = some t' ∧
      t'.without ("xmlns:" ++ q) = t.without ("xmlns:" ++ q) := by
  let d : Declaration := ⟨some q, u⟩
  have qualified : d.qualifier ≠ none := by simp [d]
  have proper : d.Proper := by
    refine ⟨?_, allowed⟩
    rintro q' same
    cases same
    exact ⟨declares.isPart, usual⟩
  obtain ⟨prolog, named, place, listed⟩ := place
  rename_i tag behind inside name ending
  obtain ⟨inserted, stands⟩ := declares
  rename_i value
  obtain ⟨entities', root, rest, prolog', element, misc⟩ := read_iff.1 read
  cases prolog.symm.trans prolog'
  obtain ⟨state, rootRead, closed, found⟩ := readRoot_iff.1 element
  obtain ⟨named', listed', normal, added, content⟩ := rootRead
  rename_i behind' inside' name' raw ending' nesting attributes opened
  cases named.symm.trans named'
  obtain ⟨rfl, rfl, rfl⟩ := readAttributes_split place listed' listed
  obtain ⟨tag', behind', lead, unmarks, unmarks', prolog'', named'', listed''⟩ :=
    readProlog_insert prolog named place inserted listed
  have longer : (unmarked (before ++ after)).length ≤ (unmarked (before ++ (w ++ after))).length := by
    simp only [unmarks, unmarks', List.length_append]
    omega
  have short : value.length ≤ (unmarked (before ++ (w ++ after))).length := by
    have bound := inserted.value_length
    simp only [unmarks, List.length_append] at bound ⊢
    omega
  have room : 12 * ((unmarked (before ++ after)).length + 2) ≤
      12 * ((unmarked (before ++ (w ++ after))).length + 2) := by omega
  obtain rfl : nesting = .none := normalizeAttributes_none normal
  obtain ⟨first, second, rfl, normal', firsts, seconds⟩ :=
    normalizeAttributes_insert normal stands (entities_short prolog'') short
      (by omega) room
  have sorted : ∀ t, SortedAttributes.none.addAll (first ++ second) = some t →
      ∃ t', SortedAttributes.none.addAll (first ++ ⟨d.rawName, d.uri⟩ :: second) = some t' ∧
        SortedAttributes.Widened d t t' :=
    fun _ => exists_widened_of_stands proper rfl firsts seconds fresh last
  have whole : ending ≠ .broken := by
    rintro rfl
    cases content
    cases (State.root_of_addStartTag_broken added).symm.trans found
  obtain ⟨opened', added', alike⟩ := alike_addStartTag qualified whole sorted added
  obtain ⟨state', content', alike'⟩ := alike.content qualified room content
  obtain ⟨closed', t', found', same⟩ := alike'.exists_root closed found
  refine ⟨t', read_iff.2 ⟨entities, _, rest, prolog'', readRoot_iff.2 ⟨state', ?_, closed', found'⟩,
    misc⟩, same⟩
  exact .mk named'' listed'' normal' added' content'

end

end Infographic.Markup
