/-
# Infographic.Proofs.StandingNames -- names that stand for themselves

A tree that was read has its names as they are written, in the scope of what it writes of its
declarations.  Each name stands for itself there when the qualifier it is written with is the
first in scope for its namespace (`Unambiguous`): reading the names again resolves them to the
same names (`stands_of_resolved`).  The scope of the written declarations need not be the one
that was read, but it agrees with it about every qualifier (`Mirrors`).
-/
import Infographic.Proofs.ResolvedTree
import Infographic.Proofs.ScopeRules

namespace Infographic.Markup

set_option autoImplicit false

open Infographic.Text (afterWord)

/-! ## Reading a name again -/

/-- A text is one name, and reads as its two parts. -/
structure ReadsAs (key : String) (name : QualifiedName) : Prop where
  chars : ∀ c ∈ key.toList, isNameChar c = true
  found : QualifiedName.ofRun key.toList = some name

theorem ReadsAs.read {key : String} {name : QualifiedName} (reads : ReadsAs key name)
    {rest : List Char} (stops : ∀ c ∈ rest.head?, isNameChar c = false) :
    QualifiedName.read (key.toList ++ rest) = some (name, rest) := by
  have behind : rest.takeWhile isNameChar = [] ∧ rest.dropWhile isNameChar = rest := by
    cases rest with
    | nil => exact ⟨rfl, rfl⟩
    | cons c rest =>
        have stop := stops c rfl
        exact ⟨List.takeWhile_cons_of_neg (by simp [stop]),
          List.dropWhile_cons_of_neg (by simp [stop])⟩
  rw [QualifiedName.read, List.takeWhile_append_of_pos reads.chars,
    List.dropWhile_append_of_pos reads.chars, behind.1, behind.2, List.append_nil, reads.found]
  rfl

theorem IsPart.ne_nil {cs : List Char} (part : IsPart cs) : cs ≠ [] := by
  rintro rfl
  exact Bool.noConfusion part.begins

theorem readsAs_part {localName : List Char} (part : IsPart localName) :
    ReadsAs (String.ofList localName) ⟨[], localName⟩ := by
  have plain : localName.dropWhile (· != ':') = [] :=
    List.dropWhile_eq_nil_iff.2 fun c member => by
      simpa using fun same : c = ':' => part.plain (same ▸ member)
  refine ⟨by simpa using part.chars, ?_⟩
  rw [String.toList_ofList, QualifiedName.ofRun, plain]
  exact if_pos part.begins

theorem readsAs_parts {qualifier localName : List Char} (first : IsPart qualifier)
    (second : IsPart localName) :
    ReadsAs (String.ofList qualifier ++ ":" ++ String.ofList localName)
      ⟨qualifier, localName⟩ := by
  have whole : (String.ofList qualifier ++ ":" ++ String.ofList localName).toList =
      qualifier ++ ':' :: localName := by simp
  have other : ∀ c ∈ qualifier, (c != ':') = true := fun c member => by
    simpa using fun same : c = ':' => first.plain (same ▸ member)
  refine ⟨fun c member => ?_, ?_⟩
  · rw [whole, List.mem_append, List.mem_cons] at member
    rcases member with inside | rfl | inside
    · exact first.chars c inside
    · decide
    · exact second.chars c inside
  · rw [whole, QualifiedName.ofRun, List.dropWhile_append_of_pos other,
      List.takeWhile_append_of_pos other, List.dropWhile_cons_of_neg (by simp),
      List.takeWhile_cons_of_neg (by simp), List.append_nil]
    simp [second.plain, second.begins, first.begins]

/-- The qualifier of a name, if it has one. -/
def QualifiedName.qualifier? (name : QualifiedName) : Option String :=
  if name.qualifier.isEmpty then none else some (String.ofList name.qualifier)

/-! ## Declarations among written attributes -/

/-- The declaration that an attribute makes. -/
def Declaration.ofAttribute? (a : String × String) : Option Declaration :=
  if a.1 = "xmlns" then some ⟨none, a.2⟩
  else (afterWord "xmlns:".toList a.1.toList).map fun q => ⟨some (String.ofList q), a.2⟩

/-- The declarations that an element makes by its attributes. -/
def declaredBy (attributes : List (String × String)) : Scope :=
  attributes.filterMap Declaration.ofAttribute?

theorem Declaration.ofAttribute?_toAttribute (d : Declaration) :
    Declaration.ofAttribute? d.toAttribute = some d := by
  obtain ⟨_ | q, u⟩ := d
  · rfl
  · have behind : afterWord "xmlns:".toList ("xmlns:" ++ q).toList = some q.toList :=
      Text.afterWord_eq_some_iff.2 (String.toList_append ..)
    have other : ("xmlns:" ++ q) ≠ "xmlns" := fun same => by
      have long : "xmlns:".length + q.length = "xmlns".length := by
        rw [← String.length_append, same]
      have six : "xmlns:".length = 6 := by decide
      have five : "xmlns".length = 5 := by decide
      omega
    rw [ofAttribute?, toAttribute, if_neg other, behind, Option.map_some, String.ofList_toList]

/-- A name that is not in the namespace of declarations declares nothing. -/
theorem ReadsAs.ofAttribute?_eq_none {key : String} {name : QualifiedName}
    (reads : ReadsAs key name)
    (declares : name.qualifier ≠ "xmlns".toList ∧ name.localName ≠ "xmlns".toList)
    (value : String) : Declaration.ofAttribute? (key, value) = none := by
  have found := reads.found
  rw [Declaration.ofAttribute?]
  split
  · rename_i same
    rw [show key = "xmlns" from same] at found
    cases found
    exact absurd rfl declares.2
  · rw [Option.map_eq_none_iff, Option.eq_none_iff_forall_ne_some]
    intro q begins
    rw [Text.afterWord_eq_some_iff.1 begins, QualifiedName.ofRun] at found
    dsimp only [] at found
    split at found
    · rename_i nothing
      cases nothing
    · rename_i behind
      cases behind
      split at found
      · cases found
      · split at found
        · cases found
        · cases found
          exact declares.1 rfl

theorem declaredBy_append {declared : Scope} {plain : List (String × String)}
    (others : ∀ a ∈ plain, Declaration.ofAttribute? a = none) :
    declaredBy (declared.map Declaration.toAttribute ++ plain) = declared := by
  rw [declaredBy, List.filterMap_append, List.filterMap_map,
    List.filterMap_eq_nil_iff.2 others, List.append_nil]
  have self : Declaration.ofAttribute? ∘ Declaration.toAttribute = some :=
    funext Declaration.ofAttribute?_toAttribute
  rw [self, List.filterMap_some]

namespace Scope

variable {s : Scope} {q u : String}

/-- A qualifier is the one by which its namespace is written, if it stands for any. -/
def Leads (s : Scope) (qualifier : Option String) : Prop :=
  ∀ u, s.uri? qualifier = some u → s.qualifierFor? u = qualifier

/-- Where no namespace is declared twice, every qualifier leads. -/
theorem leads_of_distinct (distinct : (s.map Declaration.uri).Nodup)
    (free : xmlNamespace ∉ s.map Declaration.uri) (qualifier : Option String) :
    s.Leads qualifier := by
  intro u found
  have member := mem_of_uri? found
  have other : u ≠ xmlNamespace := fun same => free (same ▸ List.mem_map.2 ⟨_, member, rfl⟩)
  rw [qualifierFor?, if_neg other, find?_uri_of_mem distinct member]
  rfl

/-- How a name is written in a namespace, or in none. -/
def key (s : Scope) (uri : Option String) (localName : String) : String :=
  match uri with
  | some uri => s.written uri localName
  | none => localName

/-- A name in a namespace is written with a qualifier that is in scope for it, or without. -/
theorem written_cases (proper : ∀ d ∈ s, d.Proper) (other : u ≠ xmlNamespace) (localName : String) :
    (∃ q, (⟨some q, u⟩ : Declaration) ∈ s ∧ s.written u localName = q ++ ":" ++ localName) ∨
      s.written u localName = localName := by
  rw [written, qualifierFor?, if_neg other]
  cases found : s.find? fun d => d.uri == u with
  | none => exact .inr rfl
  | some d =>
      have here := List.mem_of_find?_eq_some found
      have same : d.uri = u := by simpa using List.find?_some found
      obtain ⟨_ | q, v⟩ := d
      · exact .inr rfl
      · refine .inl ⟨q, same ▸ here, ?_⟩
        have named := ((proper _ here).qualifier q rfl).1.ne_nil
        have nonempty : q.isEmpty = false := by
          rw [Bool.eq_false_iff]
          exact fun empty => named (by rw [String.isEmpty_iff.1 empty]; rfl)
        simp [nonempty]

/-! ## The scope of what is written -/

/-- Two scopes agree about every qualifier, and hold nothing that may not be declared. -/
structure Mirrors (inherited s : Scope) : Prop where
  same : SamePrefixes inherited s
  first : OnePrefix inherited
  second : OnePrefix s
  proper : (∀ d ∈ inherited, d.Proper) ∧ ∀ d ∈ s, d.Proper
  unreserved : ∀ u, (⟨some "xmlns", u⟩ : Declaration) ∉ s

theorem mirrors_nil : Mirrors [] [] := by
  constructor <;> simp [SamePrefixes, OnePrefix]

variable {inherited own : Scope}

theorem OnePrefix.filter (one : OnePrefix own) (p : Declaration → Bool) :
    OnePrefix (own.filter p) :=
  fun q u v first second => one q u v (List.mem_of_mem_filter first) (List.mem_of_mem_filter second)

/-- What an element writes of its declarations has the same effect as all of them. -/
theorem Mirrors.extend (mirrors : Mirrors inherited s) (one : OnePrefix own)
    (proper : ∀ d ∈ own, d.Proper)
    (unreserved : ∀ u, (⟨some "xmlns", u⟩ : Declaration) ∉ (extend own inherited).fresh inherited) :
    Mirrors (extend own inherited) (extend ((extend own inherited).fresh inherited) s) := by
  obtain ⟨same, first, second, ⟨properFirst, properSecond⟩, free⟩ := mirrors
  rw [fresh_extend] at unreserved ⊢
  have declared {d : Declaration} :
      d ∈ own.filter (fun d => !inherited.contains d) ↔ d ∈ own ∧ d ∉ inherited := by simp
  refine ⟨fun q u => ?_, one.extend first, (one.filter _).extend second, ⟨fun d member => ?_,
    fun d member => ?_⟩, fun u member => ?_⟩
  · rw [mem_extend_iff first, mem_extend_iff second, declared, ← same q u]
    constructor
    · rintro (member | ⟨member, others⟩)
      · by_cases old : (⟨some q, u⟩ : Declaration) ∈ inherited
        · refine .inr ⟨old, fun e written named => ?_⟩
          obtain ⟨inside, new⟩ := declared.1 written
          exact new (one.eq member e inside named ▸ old)
        · exact .inl ⟨member, old⟩
      · exact .inr ⟨member, fun e written => others e (declared.1 written).1⟩
    · rintro (⟨member, -⟩ | ⟨member, others⟩)
      · exact .inl member
      · by_cases again : ∃ e ∈ own, e.qualifier = some q
        · obtain ⟨e, inside, named⟩ := again
          have old : e ∈ inherited := by
            by_contra new
            exact others e (declared.2 ⟨inside, new⟩) named
          exact .inl (first.eq member e old named ▸ inside)
        · exact .inr ⟨member, fun e inside named => again ⟨e, inside, named⟩⟩
  · exact (of_mem_extend member).elim (proper d) fun inside => properFirst d inside.1
  · exact (of_mem_extend member).elim (fun inside => proper d (declared.1 inside).1)
      fun inside => properSecond d inside.1
  · exact (of_mem_extend member).elim (unreserved u) fun inside => free u inside.1

end Scope

/-! ## Resolving a name again -/

namespace Scope

variable {s S : Scope}

/-- The name of an attribute that declares nothing, and is written as itself. -/
structure Restores (s : Scope) (key : String) (name : QualifiedName) : Prop where
  reads : ReadsAs key name
  declares : name.qualifier ≠ "xmlns".toList ∧ name.localName ≠ "xmlns".toList
  again : ∃ uri, (∀ value, attributeNamespace s ⟨name, value⟩ = some uri) ∧
    s.key uri (String.ofList name.localName) = key

/-- The name of an element that is written as itself. -/
structure RestoresTag (s : Scope) (tag : String) (name : QualifiedName) : Prop where
  reads : ReadsAs tag name
  declares : name.qualifier ≠ "xmlns".toList
  again : resolveTag s name = some tag

theorem uri_ne (proper : ∀ d ∈ s, d.Proper) {u : String} {qualifier : Option String}
    (found : s.uri? qualifier = some u) : u ≠ xmlNamespace :=
  (proper _ (mem_of_uri? found)).uri.1

/-- How a name is written: alone, or with a qualifier that is in scope for the same namespace
in a mirror, and is not reserved. -/
theorem Mirrors.written (mirrors : Mirrors S s) {qualifier : Option String} {u : String}
    (found : S.uri? qualifier = some u) (localName : String) :
    S.written u localName = localName ∨ ∃ q, S.written u localName = q ++ ":" ++ localName ∧
      s.uri? (some q) = some u ∧ IsPart q.toList ∧ q ≠ "xml" ∧ q ≠ "xmlns" := by
  rcases written_cases mirrors.proper.1 (uri_ne mirrors.proper.1 found) localName with
    ⟨q, member, same⟩ | same
  · have there := (mirrors.same q u).1 member
    obtain ⟨part, other⟩ := (mirrors.proper.1 _ member).qualifier q rfl
    exact .inr ⟨q, same, uri?_of_mem mirrors.second there, part, other, fun named =>
      mirrors.unreserved u (named ▸ there)⟩
  · exact .inl same

theorem written_of_none {u : String} (found : s.qualifierFor? u = none) (localName : String) :
    s.written u localName = localName := by
  rw [written, found]

theorem written_of_some {u q : String} (found : s.qualifierFor? u = some q)
    (part : IsPart q.toList) (localName : String) :
    s.written u localName = q ++ ":" ++ localName := by
  have nonempty : ¬ q.isEmpty = true := fun empty =>
    part.ne_nil (by rw [String.isEmpty_iff.1 empty]; rfl)
  rw [written, found]
  exact if_neg nonempty

theorem qualifier?_mk {q : String} (part : IsPart q.toList) (localName : List Char) :
    (QualifiedName.mk q.toList localName).qualifier? = some q := by
  rw [QualifiedName.qualifier?, if_neg (by simpa using part.ne_nil), String.ofList_toList]

theorem Mirrors.restoresTag (mirrors : Mirrors S s) {name : QualifiedName} {tag : String}
    (proper : name.Proper) (resolved : resolveTag S name = some tag)
    (leads : ∀ again, QualifiedName.ofRun tag.toList = some again → s.Leads again.qualifier?) :
    ∃ again, s.RestoresTag tag again := by
  have part := proper.localName
  -- Either the tag is the local name alone, or its qualifier is in scope.
  have cases : tag = String.ofList name.localName ∨
      ∃ u q, tag = q ++ ":" ++ String.ofList name.localName ∧
        s.uri? (some q) = some u ∧ IsPart q.toList ∧ q ≠ "xml" ∧ q ≠ "xmlns" := by
    rw [resolveTag] at resolved
    split at resolved
    · split at resolved
      · rename_i u found
        rw [← Option.some.inj resolved]
        exact (mirrors.written found _).imp_right fun ⟨q, rest⟩ => ⟨u, q, rest⟩
      · exact .inl (Option.some.inj resolved).symm
    · obtain ⟨u, found, rfl⟩ := Option.map_eq_some_iff.1 resolved
      exact (mirrors.written found _).imp_right fun ⟨q, rest⟩ => ⟨u, q, rest⟩
  rcases cases with rfl | ⟨u, q, rfl, found, first, -, other⟩
  · have reads := readsAs_part part
    refine ⟨_, reads, by simp, ?_⟩
    simp only [resolveTag, List.isEmpty_nil, if_true]
    cases found : s.uri? none with
    | none => rfl
    | some v => exact congrArg some (written_of_none (leads _ reads.found v found) _)
  · have reads := readsAs_parts first part
    rw [String.ofList_toList] at reads
    have lead := leads _ reads.found
    rw [qualifier?_mk first] at lead
    refine ⟨_, reads, fun same => other (String.toList_inj.1 same), ?_⟩
    simp only [resolveTag, List.isEmpty_eq_false_iff.2 first.ne_nil, Bool.false_eq_true, if_false,
      String.ofList_toList, found, Option.map_some, written_of_some (lead u found) first]

/-- An attribute that declares nothing is written under a name that declares nothing, which is
restored if its qualifier leads. -/
theorem Mirrors.restores (mirrors : Mirrors S s) {a : RawAttribute} {uri : Option String}
    (proper : a.Proper) (resolved : attributeNamespace S a = some uri) :
    ∃ again : QualifiedName, ReadsAs (S.key uri (String.ofList a.name.localName)) again ∧
      (again.qualifier ≠ "xmlns".toList ∧ again.localName ≠ "xmlns".toList) ∧
      ((again.qualifier ≠ [] → s.Leads again.qualifier?) →
        s.Restores (S.key uri (String.ofList a.name.localName)) again) := by
  have part := proper.name.localName
  have declares := proper.localName
  rw [attributeNamespace] at resolved
  split at resolved
  · -- The qualifier `xml` is reserved, and stands for its namespace everywhere.
    cases resolved
    have xml : IsPart "xml".toList := ⟨by decide, List.all_eq_true.1 (by decide), by decide⟩
    have other : "xml".toList ≠ "xmlns".toList := by decide
    have key (t : Scope) : t.key (some xmlNamespace) (String.ofList a.name.localName) =
        "xml" ++ ":" ++ String.ofList a.name.localName :=
      written_of_some (s := t) (if_pos rfl) xml _
    have reads := readsAs_parts xml part
    rw [String.ofList_toList] at reads
    rw [key S]
    exact ⟨_, reads, ⟨other, declares⟩, fun _ =>
      ⟨reads, ⟨other, declares⟩, _, fun _ => rfl, key s⟩⟩
  · have alone : s.Restores (String.ofList a.name.localName) ⟨[], a.name.localName⟩ :=
      ⟨readsAs_part part, ⟨by simp, declares⟩, none, fun _ => rfl, rfl⟩
    split at resolved
    · cases resolved
      exact ⟨_, alone.reads, alone.declares, fun _ => alone⟩
    · obtain ⟨u, found, rfl⟩ := Option.map_eq_some_iff.1 resolved
      rcases mirrors.written found (String.ofList a.name.localName) with
        same | ⟨q, same, found, first, notXml, notXmlns⟩
      · rw [key, same]
        exact ⟨_, alone.reads, alone.declares, fun _ => alone⟩
      · have reads := readsAs_parts first part
        rw [String.ofList_toList] at reads
        have other : q.toList ≠ "xmlns".toList := fun same => notXmlns (String.toList_inj.1 same)
        rw [key, same]
        refine ⟨_, reads, ⟨other, declares⟩, fun leads => ⟨reads, ⟨other, declares⟩, some u,
          fun value => ?_, ?_⟩⟩
        · have notXml' : ¬ q.toList = "xml".toList := fun same => notXml (String.toList_inj.1 same)
          simp only [attributeNamespace, notXml', if_false,
            List.isEmpty_eq_false_iff.2 first.ne_nil, Bool.false_eq_true, String.ofList_toList,
            found, Option.map_some]
        · have lead := leads first.ne_nil
          rw [qualifier?_mk first] at lead
          exact written_of_some (lead u found) first _

end Scope

/-! ## Start tags -/

/-- A start tag whose names stand for themselves in the scope of its parent: it writes some
declarations, and other attributes. -/
structure StandingTag (s : Scope) (tag : String) (declared : Scope)
    (plain : List (String × String)) : Prop where
  name : ∃ name, (Scope.extend declared s).RestoresTag tag name
  others : ∀ a ∈ plain, ∃ name, (Scope.extend declared s).Restores a.1 name
  proper : ∀ d ∈ declared, d.Proper
  new : ∀ d ∈ declared, d ∉ s
  keys : ((declared.map Declaration.toAttribute ++ plain).map Prod.fst).Nodup

/-- A tree whose names stand for themselves in the scope of its parent, its texts legal. -/
inductive Stands : Scope → Tree → Prop
  | text {s : Scope} {cs : String} (legal : Legal cs.toList) : Stands s (.text cs)
  | element {s declared : Scope} {tag : String} {plain : List (String × String)}
      {children : List Tree} (names : StandingTag s tag declared plain)
      (below : ∀ c ∈ children, Stands (Scope.extend declared s) c) :
      Stands s (.element tag (declared.map Declaration.toAttribute ++ plain) children)

/-- What makes the written names of a start tag unambiguous: no attribute is there twice, no
declaration is one that is in scope, and of the qualifiers that are in scope for a namespace,
names are written with the first. -/
structure UnambiguousTag (s : Scope) (tag : String) (attributes : List (String × String)) :
    Prop where
  keys : (attributes.map Prod.fst).Nodup
  unreserved : "xmlns:xmlns" ∉ attributes.map Prod.fst
  new : ∀ d ∈ declaredBy attributes, d ∉ s
  tag : ∀ name, QualifiedName.ofRun tag.toList = some name →
    (Scope.extend (declaredBy attributes) s).Leads name.qualifier?
  qualified : ∀ a ∈ attributes, ∀ name, QualifiedName.ofRun a.1.toList = some name →
    name.qualifier ≠ [] → (Scope.extend (declaredBy attributes) s).Leads name.qualifier?

/-- A tree whose written names are unambiguous in the scope of its parent. -/
inductive Unambiguous : Scope → Tree → Prop
  | text {s : Scope} {cs : String} : Unambiguous s (.text cs)
  | element {s : Scope} {tag : String} {attributes : List (String × String)}
      {children : List Tree} (names : UnambiguousTag s tag attributes)
      (below : ∀ c ∈ children, Unambiguous (Scope.extend (declaredBy attributes) s) c) :
      Unambiguous s (.element tag attributes children)

theorem mapM_eq_some_iff {α β : Type} {f : α → Option β} {l : List α} {out : List β} :
    l.mapM f = some out ↔ List.Forall₂ (fun a b => f a = some b) l out := by
  induction l generalizing out with
  | nil => simp [eq_comm]
  | cons a l ih =>
      rw [List.mapM_cons, Option.bind_eq_bind, Option.bind_eq_some_iff]
      constructor
      · rintro ⟨b, first, rest⟩
        obtain ⟨bs, later, same⟩ := Option.bind_eq_some_iff.1 rest
        cases same
        exact .cons first (ih.1 later)
      · rintro (_ | ⟨first, later⟩)
        exact ⟨_, first, Option.bind_eq_some_iff.2 ⟨_, ih.2 later, rfl⟩⟩

theorem exists_of_mem_forall₂ {α β : Type} {R : α → β → Prop} {l : List α} {out : List β}
    (each : List.Forall₂ R l out) : ∀ b ∈ out, ∃ a ∈ l, R a b := by
  induction each with
  | nil => simp
  | @cons a b l out first _ ih =>
      intro c member
      rcases List.mem_cons.1 member with rfl | later
      · exact ⟨a, List.mem_cons_self, first⟩
      · obtain ⟨d, inside, related⟩ := ih c later
        exact ⟨d, List.mem_cons_of_mem a inside, related⟩

theorem eraseDups_of_nodup {α : Type} [BEq α] [LawfulBEq α] {l : List α} (distinct : l.Nodup) :
    l.eraseDups = l := by
  induction l with
  | nil => rfl
  | cons a l ih =>
      rw [List.nodup_cons] at distinct
      have others : (l.filter fun b => !b == a) = l :=
        List.filter_eq_self.2 fun b member => by
          simpa using fun same : b = a => distinct.1 (same ▸ member)
      rw [List.eraseDups_cons, others, ih distinct.2]

/-- What an attribute is resolved to: the namespace of its name, its local name and its value. -/
def ResolvesTo (s : Scope) (a : RawAttribute) (r : Option String × String × String) : Prop :=
  attributeNamespace s a = some r.1 ∧ r.2 = (String.ofList a.name.localName, a.value)

theorem resolveAttributes_eq_some_iff {s : Scope} {attributes : List RawAttribute}
    {out : List (String × String)} :
    resolveAttributes s attributes = some out ↔ ∃ resolved,
      List.Forall₂ (ResolvesTo s) attributes resolved ∧
      ¬ (resolved.map fun r => (r.1, r.2.1)).eraseDups.length <
        (resolved.map fun r => (r.1, r.2.1)).length ∧
      out = resolved.map fun r => (s.key r.1 r.2.1, r.2.2) := by
  have each (a : RawAttribute) (r : Option String × String × String) :
      (do return (← attributeNamespace s a, String.ofList a.name.localName, a.value)) = some r ↔
        ResolvesTo s a r := by
    rw [Option.bind_eq_bind, Option.bind_eq_some_iff]
    constructor
    · rintro ⟨u, found, same⟩
      cases same
      exact ⟨found, rfl⟩
    · rintro ⟨found, same⟩
      exact ⟨r.1, found, congrArg some (Prod.ext rfl same.symm)⟩
  rw [resolveAttributes, Option.bind_eq_bind, Option.bind_eq_some_iff]
  refine exists_congr fun resolved => ?_
  rw [mapM_eq_some_iff]
  simp only [each]
  refine and_congr_right fun _ => ?_
  split
  · rename_i double
    exact iff_of_false (by simp) fun both => both.1 double
  · rename_i single
    rw [and_iff_right single, Option.pure_def, Option.some.injEq, eq_comm]
    refine Eq.congr_right (List.map_congr_left fun r _ => ?_)
    rcases r with ⟨_ | uri, name, value⟩ <;> rfl

theorem Scope.resolve_eq_some_iff {inherited : Scope} {name : QualifiedName}
    {sorted : SortedAttributes} {e : OpenElement} :
    inherited.resolve name sorted = some e ↔ ∃ plain tag,
      resolveAttributes (extend sorted.declarations inherited) sorted.attributes = some plain ∧
      resolveTag (extend sorted.declarations inherited) name = some tag ∧
      (⟨name, tag,
        ((extend sorted.declarations inherited).fresh inherited).map Declaration.toAttribute ++ plain,
        extend sorted.declarations inherited, []⟩ : OpenElement) = e := by
  simp only [resolve, Option.bind_eq_bind, Option.bind_eq_some_iff, Option.pure_def,
    Option.some.injEq]
  exact exists_congr fun plain =>
    ⟨fun ⟨attributes, tag, tagged, same⟩ => ⟨tag, attributes, tagged, same⟩,
      fun ⟨tag, attributes, tagged, same⟩ => ⟨attributes, tag, tagged, same⟩⟩

/-- **A start tag that was read stands for itself** in what is written of its scope. -/
theorem standingTag_of_resolved {inherited s : Scope} {e : OpenElement}
    (mirrors : inherited.Mirrors s) (resolved : e.Resolved inherited)
    (clear : UnambiguousTag s e.tag e.attributes) :
    ∃ declared plain, e.attributes = declared.map Declaration.toAttribute ++ plain ∧
      StandingTag s e.tag declared plain ∧ declaredBy e.attributes = declared ∧
      e.scope.Mirrors (Scope.extend declared s) := by
  obtain ⟨named, -, sorted, proper, resolves⟩ := resolved
  obtain ⟨plain, tag, attributes, tagged, same⟩ := Scope.resolve_eq_some_iff.1 resolves
  obtain ⟨-, rfl, written, scope, -⟩ := OpenElement.mk.inj same
  rw [← written] at clear ⊢
  rw [← scope]
  set S := Scope.extend sorted.declarations inherited
  set declared := S.fresh inherited with fresh
  have own : ∀ d ∈ declared, d ∈ sorted.declarations := fun d member => by
    rw [fresh, Scope.fresh_extend] at member
    exact List.mem_of_mem_filter member
  have mirrors' : S.Mirrors (Scope.extend declared s) :=
    mirrors.extend (Scope.onePrefix_of_nodup proper.distinct) proper.declarations fun u member =>
      clear.unreserved (List.mem_map.2 ⟨_, List.mem_append_left _
        (List.mem_map.2 ⟨_, member, rfl⟩), rfl⟩)
  obtain ⟨resolved, each, -, rfl⟩ := resolveAttributes_eq_some_iff.1 attributes
  have restores : ∀ a ∈ resolved.map fun r => (S.key r.1 r.2.1, r.2.2), ∃ again : QualifiedName, ReadsAs a.1 again ∧
      (again.qualifier ≠ "xmlns".toList ∧ again.localName ≠ "xmlns".toList) ∧
      ((again.qualifier ≠ [] → (Scope.extend declared s).Leads again.qualifier?) →
        (Scope.extend declared s).Restores a.1 again) := by
    intro a member
    obtain ⟨⟨uri, name, value⟩, inside, rfl⟩ := List.mem_map.1 member
    obtain ⟨raw, known, found, same⟩ := exists_of_mem_forall₂ each _ inside
    cases same
    exact mirrors'.restores (proper.attributes raw known) found
  generalize resolved.map (fun r => (S.key r.1 r.2.1, r.2.2)) = plain at restores clear
  have same : declaredBy (declared.map Declaration.toAttribute ++ plain) = declared :=
    declaredBy_append fun a member => by
      obtain ⟨again, reads, declares, -⟩ := restores a member
      exact reads.ofAttribute?_eq_none declares a.2
  obtain ⟨keys, -, new, first, qualified⟩ := clear
  rw [same] at new first qualified
  refine ⟨declared, plain, rfl, ⟨mirrors'.restoresTag named tagged first, fun a member => ?_,
    fun d member => proper.declarations d (own d member), new, keys⟩, same, mirrors'⟩
  obtain ⟨again, reads, -, back⟩ := restores a member
  exact ⟨again, back (qualified a (List.mem_append_right _ member) again reads.found)⟩

/-- **A tree that was read stands for itself**, if its written names are unambiguous. -/
theorem stands_of_resolved {inherited s : Scope} {t : Tree} (resolved : Resolved inherited t)
    (mirrors : inherited.Mirrors s) (clear : Unambiguous s t) : Stands s t := by
  induction resolved generalizing s with
  | text legal => exact .text legal
  | element tag below ih =>
      obtain - | ⟨names, below'⟩ := clear
      obtain ⟨declared, plain, same, standing, by_declared, mirrors'⟩ :=
        standingTag_of_resolved mirrors tag names
      rw [by_declared] at below'
      rw [same]
      exact .element standing fun c member => ih c member mirrors' (below' c member)

end Infographic.Markup
