/-
# Infographic.Proofs.WrittenMarkup -- reading what was written

Writing follows the tree (`writeTree`).  Texts side by side are written as one run, so what is
read back is the tidied tree (`Tree.tidy`): neighbouring texts joined and empty ones dropped,
and every value and text settled.  `read_writeTree` says that reading a written tree adds just
that tree, when its names stand for themselves.
-/
import Infographic.Proofs.EscapedText
import Infographic.Proofs.StandingNames
import Infographic.Proofs.TextPieces
import Mathlib.Data.List.Flatten

namespace Infographic.Markup

set_option autoImplicit false

open Infographic.Text (afterWord)

/-! ## Writing along the tree -/

mutual

/-- The markup of a tree. -/
def writeTree : Tree → List Char
  | .element tag attributes children =>
      writeElement tag attributes children.isEmpty (writeTrees children)
  | .text s => escape s

/-- The markup of some trees. -/
def writeTrees : List Tree → List Char
  | [] => []
  | t :: rest => writeTree t ++ writeTrees rest

end

/-! ## Tidying -/

/-- A text as a list of trees: none if it is empty. -/
def textTrees (words : List Char → List Char) (cs : List Char) : List Tree :=
  if cs.isEmpty then [] else [.text (String.ofList (words cs))]

/-- Change the values of attributes. -/
def settleAttributes (value : List Char → List Char) (attributes : List (String × String)) :
    List (String × String) :=
  attributes.map fun a => (a.1, String.ofList (value a.2.toList))

mutual

/-- Join neighbouring texts, drop empty ones, and change every value and every text. -/
def Tree.tidy (value words : List Char → List Char) : Tree → Tree
  | .element tag attributes children =>
      .element tag (settleAttributes value attributes) (tidyAll value words [] children)
  | .text s => .text (String.ofList (words s.toList))

/-- Tidy some trees behind the text that was gathered before them. -/
def tidyAll (value words : List Char → List Char) (before : List Char) : List Tree → List Tree
  | [] => textTrees words before
  | t :: rest =>
      match t with
      | .text s => tidyAll value words (before ++ s.toList) rest
      | .element .. =>
          textTrees words before ++ t.tidy value words :: tidyAll value words [] rest

end

/-- A tree with neighbouring texts joined and empty ones dropped. -/
def Tree.merged (t : Tree) : Tree := t.tidy id id

/-- What is read back of a tree. -/
def Tree.settled (t : Tree) : Tree := t.tidy settleValue settleText

/-! ## Start tags -/

/-- The two parts of a name, as it is written. -/
def nameOf (key : String) : QualifiedName :=
  (QualifiedName.ofRun key.toList).getD ⟨[], []⟩

theorem ReadsAs.nameOf {key : String} {name : QualifiedName} (reads : ReadsAs key name) :
    nameOf key = name := by
  rw [Markup.nameOf, reads.found]
  rfl

/-- The attributes of a written start tag, as they are read again. -/
def rawAttributes (attributes : List (String × String)) : List RawAttribute :=
  attributes.map fun a => ⟨nameOf a.1, a.2⟩

theorem ReadsAs.head {key : String} {name : QualifiedName} (reads : ReadsAs key name) :
    ∃ c cs, key.toList = c :: cs ∧ isNameChar c = true := by
  cases same : key.toList with
  | nil =>
      have found := reads.found
      rw [same] at found
      cases found
  | cons c cs => exact ⟨c, cs, rfl, reads.chars c (same ▸ List.mem_cons_self)⟩

theorem not_mem_escape {s : String} {d : Char} (special : isEscaped d = true) (other : d ≠ '&') :
    d ∉ escape s :=
  fun member => other (special_of_mem_escape member special)

theorem attributeRead_writeAttribute {a : String × String} {name : QualifiedName}
    (reads : ReadsAs a.1 name) (legal : Legal a.2.toList) (rest : List Char) :
    AttributeRead (writeAttribute a ++ rest) (name, escape a.2) rest := by
  obtain ⟨c, cs, key, first⟩ := reads.head
  have solid := not_isSpace_of_isNameChar first
  have shape : writeAttribute a ++ rest =
      ' ' :: (a.1.toList ++ '=' :: '"' :: (escape a.2 ++ '"' :: rest)) := by
    simp [writeAttribute]
  have spaces : skipSpaces (a.1.toList ++ '=' :: '"' :: (escape a.2 ++ '"' :: rest)) =
      a.1.toList ++ '=' :: '"' :: (escape a.2 ++ '"' :: rest) := by
    rw [key, List.cons_append, skipSpaces_cons solid]
  have other : ∀ d ∈ escape a.2, (d != '"') = true := fun d member => by
    simpa using fun same : d = '"' => not_mem_escape rfl (by decide) (same ▸ member)
  have quoted : readQuoted '"' (escape a.2 ++ '"' :: rest) = some (escape a.2, rest) := by
    rw [readQuoted, List.dropWhile_append_of_pos other, List.takeWhile_append_of_pos other]
    simp
  have mark : skipSpaces ('=' :: '"' :: (escape a.2 ++ '"' :: rest)) =
      '=' :: '"' :: (escape a.2 ++ '"' :: rest) := skipSpaces_cons (by decide)
  have quote : readQuote (skipSpaces ('"' :: (escape a.2 ++ '"' :: rest))) =
      some ('"', escape a.2 ++ '"' :: rest) := by
    rw [skipSpaces_cons (by decide)]
    rfl
  have skipped : skipSpaces (' ' :: (a.1.toList ++ '=' :: '"' :: (escape a.2 ++ '"' :: rest))) =
      a.1.toList ++ '=' :: '"' :: (escape a.2 ++ '"' :: rest) := by
    rw [skipSpaces, List.dropWhile_cons_of_pos (by decide)]
    exact spaces
  rw [shape]
  refine .mk (by rw [needSpaces, if_pos (by decide)]) ?_ mark quote quoted ?_
  · rw [skipped]
    exact reads.read fun d next => by
      rw [← Option.some.inj next]
      decide
  · rw [List.all_eq_true]
    intro d member
    have quiet : d ≠ '<' := fun same => not_mem_escape rfl (by decide) (same ▸ member)
    simp [legal_of_mem_escape legal d member, quiet]

/-- The attributes of a written start tag are read up to its end. -/
theorem readAttributes_write {attributes : List (String × String)} {ends rest : List Char}
    {ending : TagEnd} (named : ∀ a ∈ attributes, ReadsAs a.1 (nameOf a.1))
    (legal : ∀ a ∈ attributes, Legal a.2.toList)
    (closed : ∀ fuel, readAttributes (fuel + 1) ends = some ([], ending, rest)) {fuel : Nat}
    (enough : (attributes.flatMap writeAttribute ++ ends).length < fuel) :
    readAttributes fuel (attributes.flatMap writeAttribute ++ ends) =
      some (attributes.map fun a => (nameOf a.1, escape a.2), ending, rest) := by
  obtain ⟨fuel, rfl⟩ : ∃ n, fuel = n + 1 := ⟨fuel - 1, by omega⟩
  induction attributes generalizing fuel with
  | nil => exact closed fuel
  | cons a others ih =>
      rw [List.flatMap_cons, List.append_assoc] at enough ⊢
      refine readAttributes_iff.2 (.more (attributeRead_writeAttribute
        (named a List.mem_cons_self) (legal a List.mem_cons_self) _) ?_)
      have positive : 0 < (writeAttribute a).length := by simp [writeAttribute]
      rw [List.length_append] at enough
      obtain ⟨fuel, rfl⟩ : ∃ n, fuel = n + 1 := ⟨fuel - 1, by omega⟩
      exact ih (fun b member => named b (List.mem_cons_of_mem a member))
        (fun b member => legal b (List.mem_cons_of_mem a member)) fuel (by omega)

theorem normalizeAttributes_write {entities : Entities} {fuel : Nat}
    {attributes : List (String × String)} (enough : ∀ a ∈ attributes, (escape a.2).length < fuel) :
    normalizeAttributes entities fuel .none (attributes.map fun a => (nameOf a.1, escape a.2)) =
      some (.none, rawAttributes (settleAttributes settleValue attributes)) := by
  induction attributes with
  | nil => rfl
  | cons a others ih =>
      have first : normalizeValue entities fuel .none [] (escape a.2) =
          some (.none, (settleValue a.2.toList).reverse ++ []) :=
        normalizeValue_escape (enough a List.mem_cons_self)
      rw [List.append_nil] at first
      rw [List.map_cons, normalizeAttributes, first, Option.bind_eq_bind, Option.bind_some]
      dsimp only
      rw [ih fun b member => enough b (List.mem_cons_of_mem a member), List.reverse_reverse]
      rfl

/-- The name of a written declaration. -/
def Declaration.rawName (d : Declaration) : QualifiedName :=
  match d.qualifier with
  | some q => ⟨"xmlns".toList, q.toList⟩
  | none => ⟨[], "xmlns".toList⟩

theorem Declaration.Proper.reads {d : Declaration} (proper : d.Proper) :
    ReadsAs d.toAttribute.1 d.rawName := by
  have xmlns : IsPart "xmlns".toList := ⟨by decide, List.all_eq_true.1 (by decide), by decide⟩
  obtain ⟨_ | q, u⟩ := d
  · exact readsAs_part xmlns
  · have reads := readsAs_parts xmlns (proper.qualifier q rfl).1
    rw [String.ofList_toList, String.ofList_toList] at reads
    exact reads

theorem Declaration.toAttribute_snd (d : Declaration) : d.toAttribute.2 = d.uri := by
  obtain ⟨_ | q, u⟩ := d <;> rfl

namespace SortedAttributes

theorem add_declaration {sorted : SortedAttributes} {d : Declaration} (proper : d.Proper)
    (fresh : ∀ e ∈ sorted.declarations, e.toAttribute.1 ≠ d.toAttribute.1) :
    sorted.add ⟨d.rawName, d.uri⟩ =
      some { sorted with declarations := sorted.declarations ++ [d] } := by
  obtain ⟨_ | q, u⟩ := d
  · have unqualified : ([] : List Char) ≠ "xmlns".toList := by decide
    exact add_iff.2 (.default unqualified rfl proper.uri)
  · have back : String.ofList q.toList = q := String.ofList_toList
    have other : String.ofList q.toList ≠ "xml" := by
      rw [back]
      exact (proper.qualifier q rfl).2
    have free : ∀ e ∈ sorted.declarations, e.qualifier ≠ some (String.ofList q.toList) := by
      rintro ⟨r, v⟩ member same
      obtain rfl : r = some q := same.trans (congrArg some back)
      exact fresh _ member rfl
    have step : SortStep sorted ⟨Declaration.rawName ⟨some q, u⟩, u⟩ _ :=
      .qualified rfl other proper.uri free
    rw [add_iff.2 step]
    simp only [Declaration.rawName, back]

theorem add_plain {sorted : SortedAttributes} {a : RawAttribute}
    (declares : a.name.qualifier ≠ "xmlns".toList ∧ a.name.localName ≠ "xmlns".toList) :
    sorted.add a = some { sorted with attributes := sorted.attributes ++ [a] } :=
  add_iff.2 (.plain declares.1 declares.2)

theorem addAll_declarations {before declared : Scope} {attributes : List RawAttribute}
    (proper : ∀ d ∈ declared, d.Proper)
    (distinct : ((before ++ declared).map fun d => d.toAttribute.1).Nodup) :
    (SortedAttributes.mk before attributes).addAll
        (declared.map fun d => ⟨d.rawName, d.uri⟩) =
      some ⟨before ++ declared, attributes⟩ := by
  induction declared generalizing before with
  | nil => simp [addAll]
  | cons d declared ih =>
      have first : (SortedAttributes.mk before attributes).add ⟨d.rawName, d.uri⟩ =
          some ⟨before ++ [d], attributes⟩ := by
        refine add_declaration (proper d List.mem_cons_self) fun e member same => ?_
        rw [List.map_append, List.nodup_append] at distinct
        exact distinct.2.2 _ (List.mem_map.2 ⟨e, member, rfl⟩) _
          (List.mem_map.2 ⟨d, List.mem_cons_self, rfl⟩) same
      have whole : before ++ d :: declared = before ++ [d] ++ declared := by simp
      rw [whole] at distinct ⊢
      rw [List.map_cons, addAll, List.foldlM_cons, first]
      exact ih (fun e member => proper e (List.mem_cons_of_mem d member)) distinct

theorem addAll_plain {declarations : Scope} {before plain : List RawAttribute}
    (declares : ∀ a ∈ plain,
      a.name.qualifier ≠ "xmlns".toList ∧ a.name.localName ≠ "xmlns".toList) :
    (SortedAttributes.mk declarations before).addAll plain =
      some ⟨declarations, before ++ plain⟩ := by
  induction plain generalizing before with
  | nil => simp [addAll]
  | cons a plain ih =>
      rw [addAll, List.foldlM_cons, add_plain (declares a List.mem_cons_self)]
      have later : (SortedAttributes.mk declarations (before ++ [a])).addAll plain = _ :=
        ih fun b member => declares b (List.mem_cons_of_mem a member)
      rw [List.append_assoc] at later
      exact later

theorem addAll_append {sorted middle out : SortedAttributes} {first second : List RawAttribute}
    (one : sorted.addAll first = some middle) (two : middle.addAll second = some out) :
    sorted.addAll (first ++ second) = some out := by
  rw [addAll] at one
  rw [addAll, List.foldlM_append, one]
  exact two

end SortedAttributes

namespace StandingTag

variable {s declared : Scope} {tag : String} {plain : List (String × String)}

theorem restores (standing : StandingTag s tag declared plain) {a : String × String}
    (member : a ∈ plain) : (Scope.extend declared s).Restores a.1 (nameOf a.1) := by
  obtain ⟨name, restores⟩ := standing.others a member
  rw [restores.reads.nameOf]
  exact restores

/-- Only the names of the attributes matter. -/
theorem settle (standing : StandingTag s tag declared plain) (value : List Char → List Char) :
    StandingTag s tag declared (settleAttributes value plain) := by
  have names : (settleAttributes value plain).map Prod.fst = plain.map Prod.fst := by
    simp [settleAttributes]
  refine ⟨standing.name, fun a member => ?_, standing.proper, standing.new, ?_⟩
  · obtain ⟨b, inside, rfl⟩ := List.mem_map.1 member
    exact standing.others b inside
  · rw [List.map_append, names, ← List.map_append]
    exact standing.keys

/-- Every attribute has a name. -/
theorem reads (standing : StandingTag s tag declared plain) :
    ∀ a ∈ declared.map Declaration.toAttribute ++ plain, ReadsAs a.1 (nameOf a.1) := by
  intro a member
  rcases List.mem_append.1 member with inside | inside
  · obtain ⟨d, declares, rfl⟩ := List.mem_map.1 inside
    have reads := (standing.proper d declares).reads
    rw [reads.nameOf]
    exact reads
  · exact (standing.restores inside).reads

theorem declaredBy_eq (standing : StandingTag s tag declared plain) :
    declaredBy (declared.map Declaration.toAttribute ++ plain) = declared :=
  declaredBy_append fun a member =>
    (standing.restores member).reads.ofAttribute?_eq_none (standing.restores member).declares a.2

/-- The attributes of a written start tag are sorted out into what they were written from. -/
theorem addAll (standing : StandingTag s tag declared plain) :
    SortedAttributes.none.addAll
        (rawAttributes (declared.map Declaration.toAttribute ++ plain)) =
      some ⟨declared, rawAttributes plain⟩ := by
  have raw : rawAttributes (declared.map Declaration.toAttribute) =
      declared.map fun d => ⟨d.rawName, d.uri⟩ := by
    rw [rawAttributes, List.map_map]
    refine List.map_congr_left fun d member => ?_
    rw [Function.comp_apply, (standing.proper d member).reads.nameOf, d.toAttribute_snd]
  have distinct : (([] ++ declared : Scope).map fun d => d.toAttribute.1).Nodup := by
    have keys := standing.keys
    rw [List.map_append, List.map_map] at keys
    exact keys.of_append_left
  have first : SortedAttributes.none.addAll (rawAttributes (declared.map Declaration.toAttribute)) =
      some ⟨[] ++ declared, []⟩ := by
    rw [raw]
    exact SortedAttributes.addAll_declarations standing.proper distinct
  have second : (SortedAttributes.mk ([] ++ declared) []).addAll (rawAttributes plain) =
      some ⟨[] ++ declared, [] ++ rawAttributes plain⟩ := by
    refine SortedAttributes.addAll_plain fun a member => ?_
    obtain ⟨b, inside, rfl⟩ := List.mem_map.1 member
    exact (standing.restores inside).declares
  have both := SortedAttributes.addAll_append first second
  have whole : rawAttributes (declared.map Declaration.toAttribute ++ plain) =
      rawAttributes (declared.map Declaration.toAttribute) ++ rawAttributes plain :=
    List.map_append
  rw [whole]
  exact both

theorem resolveAttributes (standing : StandingTag s tag declared plain) :
    resolveAttributes (Scope.extend declared s) (rawAttributes plain) = some plain := by
  set S := Scope.extend declared s
  have namespaces {a : String × String} (member : a ∈ plain) :
      ∃ uri, attributeNamespace S ⟨nameOf a.1, a.2⟩ = some uri ∧
        S.key uri (String.ofList (nameOf a.1).localName) = a.1 := by
    obtain ⟨uri, found, same⟩ := (standing.restores member).again
    exact ⟨uri, found a.2, same⟩
  let resolved (a : String × String) : Option String × String × String :=
    ((attributeNamespace S ⟨nameOf a.1, a.2⟩).getD none, String.ofList (nameOf a.1).localName, a.2)
  have keys (a : String × String) (member : a ∈ plain) :
      S.key (resolved a).1 (resolved a).2.1 = a.1 := by
    obtain ⟨uri, found, same⟩ := namespaces member
    simp only [resolved, found, Option.getD_some, same]
  have names : ((plain.map resolved).map fun r => (r.1, r.2.1)).Nodup := by
    refine List.Nodup.of_map (fun r => S.key r.1 r.2) ?_
    rw [List.map_map, List.map_map]
    refine (List.map_congr_left keys : _ = plain.map Prod.fst) ▸ ?_
    have distinct := standing.keys
    rw [List.map_append] at distinct
    exact distinct.of_append_right
  refine resolveAttributes_eq_some_iff.2 ⟨plain.map resolved, ?_, ?_, ?_⟩
  · rw [rawAttributes, List.forall₂_map_left_iff, List.forall₂_map_right_iff, List.forall₂_same]
    intro a member
    obtain ⟨uri, found, -⟩ := namespaces member
    exact ⟨by simp only [resolved, found, Option.getD_some], rfl⟩
  · rw [eraseDups_of_nodup names]
    exact Nat.lt_irrefl _
  · rw [List.map_map]
    exact (List.map_id plain).symm.trans
      (List.map_congr_left fun a member => Prod.ext (keys a member).symm rfl)

/-- **A written start tag is resolved to itself.** -/
theorem resolve (standing : StandingTag s tag declared plain) :
    s.resolve (nameOf tag) ⟨declared, rawAttributes plain⟩ =
      some ⟨nameOf tag, tag, declared.map Declaration.toAttribute ++ plain,
        Scope.extend declared s, []⟩ := by
  obtain ⟨name, restores⟩ := standing.name
  have fresh : (Scope.extend declared s).fresh s = declared := by
    rw [Scope.fresh_extend]
    exact List.filter_eq_self.2 fun d member => by simpa using standing.new d member
  refine Scope.resolve_eq_some_iff.2 ⟨plain, tag, standing.resolveAttributes, ?_, ?_⟩
  · rw [restores.reads.nameOf]
    exact restores.again
  · rw [fresh]

end StandingTag

/-! ## Adding trees -/

namespace State

variable {st : State} {s : Scope}

/-- Add some trees, one behind the other. -/
def addAll (st : State) (ts : List Tree) : State :=
  ts.foldl add st

theorem addAll_append (st : State) (first second : List Tree) :
    st.addAll (first ++ second) = (st.addAll first).addAll second :=
  List.foldl_append

/-- Written markup is read in such a state: in a scope, no entity being read, no attributes
waiting, and behind a start tag. -/
structure Steady (s : Scope) (st : State) : Prop where
  scope : st.scope = s
  nesting : st.nesting = .none
  pending : st.pending = .none
  started : st.started = true

theorem Steady.eq_self (steady : st.Steady s) :
    ({ st with pending := .none, started := true } : State) = st := by
  rw [← steady.pending, ← steady.started]

theorem Steady.withJoins (steady : st.Steady s) (joins : Bool) :
    ({ st with joins } : State).Steady s :=
  ⟨steady.scope, steady.nesting, steady.pending, steady.started⟩

theorem Steady.add (steady : st.Steady s) (t : Tree) : (st.add t).Steady s := by
  obtain ⟨scope, nesting, pending, started⟩ := steady
  rw [scope_eq] at scope
  rw [State.add]
  split <;> rename_i open_elements <;> rw [open_elements] at scope
  · exact ⟨by rw [scope_eq, open_elements]; exact scope, nesting, pending, started⟩
  · exact ⟨by rw [scope_eq]; exact scope, nesting, pending, started⟩

theorem Steady.addAll (steady : st.Steady s) (ts : List Tree) : (st.addAll ts).Steady s := by
  induction ts generalizing st with
  | nil => exact steady
  | cons t ts ih => exact ih (steady.add t)

theorem add_withJoins (st : State) (joins : Bool) (t : Tree) :
    ({ st with joins } : State).add t = st.add t := by
  rw [add, add]

theorem joins_add (st : State) (t : Tree) : (st.add t).joins = false := by
  rw [add]
  cases st.stack <;> rfl

theorem addText_of_not_joins (apart : st.joins = false) (cs : List Char) :
    st.addText cs = { st.add (.text (String.ofList cs)) with joins := true } := by
  rw [addText, apart]

/-- The children of an open element, in front of which more are put. -/
theorem addAll_openElement (st : State) (e : OpenElement) (ts : List Tree) (joins : Bool) :
    ({ (st.openElement e).addAll ts with joins } : State) =
      { st.openElement { e with children := ts.reverse ++ e.children } with joins } := by
  induction ts generalizing e with
  | nil => rfl
  | cons t ts ih =>
      have first : ((st.openElement e).add t).addAll ts =
          (st.openElement { e with children := t :: e.children }).addAll ts := rfl
      have whole : (st.openElement e).addAll (t :: ts) = ((st.openElement e).add t).addAll ts := rfl
      rw [whole, first, ih]
      simp

/-- An element is added when it is closed. -/
theorem closeElement_addAll (st : State) {e : OpenElement} (childless : e.children = [])
    (ts : List Tree) (joins : Bool) :
    ({ (st.openElement e).addAll ts with joins } : State).closeElement e.name =
      some ({ st with pending := .none, started := true }.add (.element e.tag e.attributes ts)) := by
  rw [addAll_openElement, childless, List.append_nil]
  have closes : ({ st.openElement { e with children := ts.reverse } with joins } : State).closeElement
      e.name = some ({ st with joins, pending := .none, started := true }.add
        (.element e.tag e.attributes ts.reverse.reverse)) := by
    simp only [closeElement, openElement]
    rfl
  rw [closes, List.reverse_reverse]
  exact congrArg some (add_withJoins { st with pending := .none, started := true } joins _)

end State

/-! ## Reading a written start tag -/

/-- Attributes that can be written: legal values, and namespaces that stay as they are. -/
structure Writable (attributes : List (String × String)) : Prop where
  legal : ∀ a ∈ attributes, Legal a.2.toList
  fixed : ∀ d ∈ declaredBy attributes, settleValue d.uri.toList = d.uri.toList

/-- The end of a written start tag, and what follows it. -/
structure TagCloses (ending : TagEnd) (ends rest : List Char) : Prop where
  closed : ∀ fuel, readAttributes (fuel + 1) ends = some ([], ending, rest)
  stops : ∀ c ∈ ends.head?, isNameChar c = false
  less : rest.length < ends.length

theorem tagCloses_empty (rest : List Char) : TagCloses .empty ('/' :: '>' :: rest) rest :=
  ⟨fun _ => readAttributes_iff.2 (.empty (skipSpaces_cons (by decide))),
    fun _ next => by rw [← Option.some.inj next]; decide, Nat.lt_add_of_pos_right (by decide : 0 < 2)⟩

theorem tagCloses_opening (rest : List Char) : TagCloses .opening ('>' :: rest) rest :=
  ⟨fun _ => readAttributes_iff.2 (.opening (skipSpaces_cons (by decide))),
    fun _ next => by rw [← Option.some.inj next]; decide, by simp⟩

namespace StandingTag

variable {s declared : Scope} {tag : String} {plain : List (String × String)}
  {ends rest : List Char} {ending : TagEnd}

/-- The attributes of an element that stands for itself. -/
abbrev attributes (_ : StandingTag s tag declared plain) : List (String × String) :=
  declared.map Declaration.toAttribute ++ plain

/-- Those attributes as they are read again. -/
abbrev raw (_ : StandingTag s tag declared plain) : List RawAttribute :=
  rawAttributes (declared.map Declaration.toAttribute ++ settleAttributes settleValue plain)

theorem settle_attributes (standing : StandingTag s tag declared plain)
    (writable : Writable standing.attributes) :
    settleAttributes settleValue standing.attributes =
      declared.map Declaration.toAttribute ++ settleAttributes settleValue plain := by
  have fixed := writable.fixed
  rw [standing.declaredBy_eq] at fixed
  rw [settleAttributes, List.map_append, List.map_map]
  refine congrArg (· ++ _) (List.map_congr_left fun d member => ?_)
  rw [Function.comp_apply, d.toAttribute_snd, fixed d member, String.ofList_toList,
    ← d.toAttribute_snd]

theorem read_tag (standing : StandingTag s tag declared plain)
    (closes : TagCloses ending ends rest) :
    QualifiedName.read (writeHead tag standing.attributes ++ ends) =
      some (nameOf tag, standing.attributes.flatMap writeAttribute ++ ends) := by
  obtain ⟨name, restores⟩ := standing.name
  rw [writeHead, List.append_assoc, restores.reads.nameOf]
  refine restores.reads.read fun c next => ?_
  cases same : standing.attributes with
  | nil =>
      rw [same] at next
      exact closes.stops c next
  | cons a others =>
      rw [same] at next
      cases next
      decide

theorem read_endTag (standing : StandingTag s tag declared plain) :
    QualifiedName.read (tag.toList ++ '>' :: rest) = some (nameOf tag, '>' :: rest) := by
  obtain ⟨name, restores⟩ := standing.name
  rw [restores.reads.nameOf]
  refine restores.reads.read fun c next => ?_
  rw [← Option.some.inj next]
  decide

theorem read_attributes (standing : StandingTag s tag declared plain)
    (writable : Writable standing.attributes) (closes : TagCloses ending ends rest) :
    readAttributes (standing.attributes.flatMap writeAttribute ++ ends).length.succ
        (standing.attributes.flatMap writeAttribute ++ ends) =
      some (standing.attributes.map fun a => (nameOf a.1, escape a.2), ending, rest) :=
  readAttributes_write standing.reads writable.legal closes.closed (Nat.lt_succ_self _)

theorem normalize (standing : StandingTag s tag declared plain)
    (writable : Writable standing.attributes) {entities : Entities} {fuel : Nat}
    (enough : (writeHead tag standing.attributes).length < fuel) :
    normalizeAttributes entities fuel .none
        (standing.attributes.map fun a => (nameOf a.1, escape a.2)) =
      some (.none, standing.raw) := by
  rw [raw, ← standing.settle_attributes writable]
  refine normalizeAttributes_write fun a member => ?_
  have inside : (writeAttribute a).length ≤
      (standing.attributes.flatMap writeAttribute).length := by
    have among := (List.singleton_sublist.2 member).flatMap writeAttribute
    rw [List.flatMap_singleton] at among
    exact among.length_le
  have whole : (writeAttribute a).length = a.1.toList.length + (escape a.2).length + 4 := by
    simp only [writeAttribute, List.length_cons, List.length_append, List.length_nil]
    omega
  rw [writeHead, List.length_append] at enough
  omega

/-- The element that a written start tag opens. -/
def element (standing : StandingTag s tag declared plain) : OpenElement :=
  ⟨nameOf tag, tag, settleAttributes settleValue standing.attributes, Scope.extend declared s, []⟩

theorem sort (standing : StandingTag s tag declared plain)
    (writable : Writable standing.attributes) {st : State} (scope : st.scope = s)
    (pending : st.pending = .none) :
    ∃ sorted, st.pending.addAll standing.raw = some sorted ∧
      st.resolve (nameOf tag) sorted = some standing.element := by
  have settled := standing.settle settleValue
  refine ⟨⟨declared, rawAttributes (settleAttributes settleValue plain)⟩, ?_, ?_⟩
  · rw [pending]
    exact settled.addAll
  · have resolves := settled.resolve
    rw [← scope] at resolves
    rw [element, standing.settle_attributes writable, ← scope]
    exact resolves

theorem nameOf_qualifier (standing : StandingTag s tag declared plain) :
    (nameOf tag).qualifier ≠ "xmlns".toList := by
  obtain ⟨name, restores⟩ := standing.name
  rw [restores.reads.nameOf]
  exact restores.declares

theorem open_tag (standing : StandingTag s tag declared plain)
    (writable : Writable standing.attributes) {st : State} (scope : st.scope = s)
    (pending : st.pending = .none) :
    st.addStartTag (nameOf tag) standing.raw .opening =
      some (st.openElement standing.element) := by
  obtain ⟨sorted, sorts, resolves⟩ := standing.sort writable scope pending
  exact State.addStartTag_iff.2 (.opening standing.nameOf_qualifier sorts resolves)

theorem empty_tag (standing : StandingTag s tag declared plain)
    (writable : Writable standing.attributes) {st : State} (scope : st.scope = s)
    (pending : st.pending = .none) :
    st.addStartTag (nameOf tag) standing.raw .empty = some (st.addEmpty standing.element) := by
  obtain ⟨sorted, sorts, resolves⟩ := standing.sort writable scope pending
  exact State.addStartTag_iff.2 (.empty standing.nameOf_qualifier sorts resolves)

end StandingTag

/-! ## Reading a written tree -/

/-- Something holds of the attributes and children of every element of a tree, and something of
its texts. -/
inductive Tree.Every (element : List (String × String) → List Tree → Prop)
    (text : String → Prop) : Tree → Prop
  | text {s : String} (here : text s) : Every element text (.text s)
  | element {tag : String} {attributes : List (String × String)} {children : List Tree}
      (here : element attributes children) (below : ∀ c ∈ children, Every element text c) :
      Every element text (.element tag attributes children)

/-- Every element of a tree has attributes that can be written. -/
def WritableTree : Tree → Prop :=
  Tree.Every (fun attributes _ => Writable attributes) fun _ => True

section

variable {level : Nat} {st : State} {s : Scope} {rest : List Char} {out : State × List Char}

/-- A run of text is read as one text. -/
theorem read_text {before : List Char} (nonempty : before ≠ []) (legal : Legal before)
    (flat : st.nesting = .none) (apart : st.joins = false) (stops : rest.head? = some '<')
    (later : ∀ fuel, rest.length < fuel → readContent fuel level
      { st.add (.text (String.ofList (settleText before))) with joins := true } rest = some out)
    {fuel : Nat} (enough : (before.flatMap escapeChar ++ rest).length < fuel) :
    readContent fuel level st (before.flatMap escapeChar ++ rest) = some out := by
  obtain ⟨fuel, rfl⟩ : ∃ n, fuel = n + 1 := ⟨fuel - 1, by omega⟩
  obtain ⟨more, rfl⟩ := List.head?_eq_some_iff.1 stops
  rw [List.length_append, List.length_cons] at enough
  have quiet {d : Char} (special : isEscaped d = true) (other : d ≠ '&') :
      d ∉ before.flatMap escapeChar := fun member => other (special_of_mem_escape member special)
  have inside : ∀ d ∈ before.flatMap escapeChar, (d != '<') = true := fun d member => by
    simpa using fun same : d = '<' => quiet rfl (by decide) (same ▸ member)
  have written : before.flatMap escapeChar ≠ [] := fun none => nonempty (by
    rw [← List.isEmpty_iff, ← isEmpty_escape, none, List.isEmpty_nil])
  have positive : 0 < (before.flatMap escapeChar).length := List.length_pos_iff.2 written
  have taken : (before.flatMap escapeChar ++ '<' :: more).takeWhile (· != '<') =
      before.flatMap escapeChar := by
    rw [List.takeWhile_append_of_pos inside, List.takeWhile_cons_of_neg (by simp), List.append_nil]
  have left : (before.flatMap escapeChar ++ '<' :: more).dropWhile (· != '<') = '<' :: more := by
    rw [List.dropWhile_append_of_pos inside, List.dropWhile_cons_of_neg (by simp)]
  have words : readText fuel st [] false (before.flatMap escapeChar) =
      some { st.add (.text (String.ofList (settleText before))) with joins := true } := by
    have settled : (settleOnto [] false before).isEmpty = false :=
      List.isEmpty_eq_false_iff.2 (settleOnto_ne_nil (.inr nonempty))
    rw [readText_escape (by rw [flat]; rfl) (by omega), State.flush, settled,
      ← State.addText_of_not_joins apart]
    rfl
  refine readContent_iff.2 (.text (fun none => written (List.append_eq_nil_iff.1 none).1) ?_ ?_
    (taken.symm ▸ words) ?_)
  · obtain ⟨c, cs, first⟩ := List.exists_cons_of_ne_nil written
    rw [first]
    simpa [first] using inside c (first ▸ List.mem_cons_self)
  · rw [taken, isLegalText, Text.cutAt_eq_none (c := '>') (by decide) (quiet rfl (by decide)),
      List.all_eq_true.2 (legal_of_mem_escape legal)]
    rfl
  · rw [left]
    exact later fuel (by rw [List.length_cons]; omega)

/-- The text gathered before a tag is read as one text, or there is none. -/
theorem read_gathered {before : List Char} (legal : Legal before) (flat : st.nesting = .none)
    (apart : st.joins = false) (stops : rest.head? = some '<')
    (later : ∀ joins fuel, rest.length < fuel → readContent fuel level
      { st.addAll (textTrees settleText before) with joins } rest = some out)
    {fuel : Nat} (enough : (before.flatMap escapeChar ++ rest).length < fuel) :
    readContent fuel level st (before.flatMap escapeChar ++ rest) = some out := by
  by_cases nothing : before = []
  · subst nothing
    have same : ({ st.addAll (textTrees settleText []) with joins := false } : State) = st := by
      rw [← apart]
      rfl
    have read := later false fuel enough
    rw [same] at read
    exact read
  · have one : textTrees settleText before = [.text (String.ofList (settleText before))] :=
      if_neg (by simpa using nothing)
    rw [one] at later
    exact read_text nothing legal flat apart stops (later true) enough

/-- The children of an element are read inside it, up to its end tag. -/
def ReadsBack (s : Scope) (ts : List Tree) : Prop :=
  ∀ ⦃level : Nat⦄ ⦃st : State⦄ ⦃rest : List Char⦄ ⦃out : State × List Char⦄ ⦃before : List Char⦄,
    st.Steady s → st.joins = false → Legal before → rest.head? = some '<' →
    (∀ joins fuel, rest.length < fuel → readContent fuel level
      { st.addAll (tidyAll settleValue settleText before ts) with joins } rest = some out) →
    ∀ ⦃fuel : Nat⦄, (before.flatMap escapeChar ++ (writeTrees ts ++ rest)).length < fuel →
      readContent fuel level st (before.flatMap escapeChar ++ (writeTrees ts ++ rest)) = some out

variable {declared : Scope} {tag : String} {plain : List (String × String)} {children : List Tree}

/-- A start tag is read, its element being added or opened. -/
theorem read_startTag (standing : StandingTag s tag declared plain)
    (writable : Writable standing.attributes) {ending : TagEnd} {ends : List Char} {next : State}
    (flat : st.nesting = .none) (closes : TagCloses ending ends rest)
    (added : st.addStartTag (nameOf tag) standing.raw ending = some next)
    (later : ∀ fuel, rest.length < fuel →
      readContent fuel (ending.levelIn level) next rest = some out)
    {fuel : Nat} (enough : ('<' :: (writeHead tag standing.attributes ++ ends)).length < fuel) :
    readContent fuel level st ('<' :: (writeHead tag standing.attributes ++ ends)) = some out := by
  obtain ⟨fuel, rfl⟩ : ∃ n, fuel = n + 1 := ⟨fuel - 1, by omega⟩
  have less := closes.less
  rw [List.length_cons, List.length_append] at enough
  have normal : normalizeAttributes st.entities fuel st.nesting
      (standing.attributes.map fun a => (nameOf a.1, escape a.2)) =
        some (.none, standing.raw) := by
    rw [flat]
    exact standing.normalize writable (by omega)
  have next_added : ({ st with nesting := .none } : State).addStartTag (nameOf tag) standing.raw
      ending = some next := by
    rw [← flat]
    exact added
  exact readContent_iff.2 (.tag (standing.read_tag closes)
    (standing.read_attributes writable closes) normal next_added (later fuel (by omega)))

/-- An element is read when its children are. -/
theorem read_element (standing : StandingTag s tag declared plain)
    (writable : Writable standing.attributes)
    (below : ReadsBack (Scope.extend declared s) children) (steady : st.Steady s)
    (later : ∀ fuel, rest.length < fuel → readContent fuel level
      (st.add (Tree.element tag standing.attributes children).settled) rest = some out)
    {fuel : Nat}
    (enough : (writeTree (.element tag standing.attributes children) ++ rest).length < fuel) :
    readContent fuel level st (writeTree (.element tag standing.attributes children) ++ rest) =
      some out := by
  rw [writeTree, writeElement] at enough ⊢
  by_cases none : children = []
  · subst none
    rw [List.isEmpty_nil, if_pos rfl] at enough ⊢
    have shape : ('<' :: (writeHead tag standing.attributes ++ "/>".toList)) ++ rest =
        '<' :: (writeHead tag standing.attributes ++ '/' :: '>' :: rest) := by simp
    rw [shape] at enough ⊢
    refine read_startTag standing writable steady.nesting (tagCloses_empty rest)
      (standing.empty_tag writable steady.scope steady.pending) (fun fuel big => ?_) enough
    have same : st.addEmpty standing.element =
        st.add (Tree.element tag standing.attributes []).settled := by
      have added := steady.add (Tree.element tag standing.attributes []).settled
      exact added.eq_self
    rw [same]
    exact later fuel big
  · rw [List.isEmpty_eq_false_iff.2 none, if_neg (by simp)] at enough ⊢
    have shape : ('<' :: (writeHead tag standing.attributes ++
          '>' :: (writeTrees children ++ "</".toList ++ tag.toList ++ ['>']))) ++ rest =
        '<' :: (writeHead tag standing.attributes ++
          '>' :: (writeTrees children ++ '<' :: '/' :: (tag.toList ++ '>' :: rest))) := by simp
    rw [shape] at enough ⊢
    refine read_startTag standing writable steady.nesting (tagCloses_opening _)
      (standing.open_tag writable steady.scope steady.pending) (fun fuel big => ?_) enough
    have inside : (st.openElement standing.element).Steady (Scope.extend declared s) :=
      ⟨rfl, steady.nesting, rfl, rfl⟩
    have nothing : Legal [] := by simp [Legal]
    refine below inside rfl nothing rfl (fun joins fuel big => ?_) big
    obtain ⟨fuel, rfl⟩ : ∃ n, fuel = n + 1 := ⟨fuel - 1, by omega⟩
    refine readContent_iff.2 (.closeInner standing.read_endTag (skipSpaces_cons (by decide))
      (State.closeElement_addAll st rfl _ joins) ?_)
    rw [steady.eq_self]
    simp only [List.length_cons, List.length_append] at big
    exact later fuel (by omega)

/-- **Reading written trees adds what is read back of them.** -/
theorem readsBack {scope : Scope} (ts : List Tree) (standing : ∀ t ∈ ts, Stands scope t)
    (writable : ∀ t ∈ ts, WritableTree t) : ReadsBack scope ts := by
  intro level st rest out before steady apart legal stops later fuel enough
  match ts with
  | [] => exact read_gathered legal steady.nesting apart stops later enough
  | .text cs :: ts =>
      have joined : before.flatMap escapeChar ++ (writeTrees (.text cs :: ts) ++ rest) =
          (before ++ cs.toList).flatMap escapeChar ++ (writeTrees ts ++ rest) := by
        rw [writeTrees, writeTree, escape, List.flatMap_append, List.append_assoc,
          List.append_assoc]
      rw [joined] at enough ⊢
      obtain ⟨legal'⟩ := standing _ List.mem_cons_self
      refine readsBack ts (fun t member => standing t (List.mem_cons_of_mem _ member))
        (fun t member => writable t (List.mem_cons_of_mem _ member)) steady apart (fun c member => ?_)
        stops later enough
      exact (List.mem_append.1 member).elim (legal c) (legal' c)
  | .element tag attributes children :: ts =>
      obtain - | ⟨names, below⟩ := standing _ List.mem_cons_self
      obtain - | ⟨here, below'⟩ := writable _ List.mem_cons_self
      have inside := readsBack children below below'
      have behind := readsBack ts (fun t member => standing t (List.mem_cons_of_mem _ member))
        fun t member => writable t (List.mem_cons_of_mem _ member)
      rw [writeTrees, List.append_assoc] at enough ⊢
      have nothing : Legal [] := by simp [Legal]
      have begins : ∃ more, writeTree (.element tag names.attributes children) = '<' :: more := by
        rw [writeTree, writeElement]
        split <;> exact ⟨_, rfl⟩
      obtain ⟨more, first⟩ := begins
      refine read_gathered legal steady.nesting apart (by rw [first]; rfl)
        (fun joins fuel big => ?_) enough
      refine read_element names here inside ((steady.addAll _).withJoins joins)
        (fun fuel big => ?_) big
      rw [State.add_withJoins]
      refine behind ((steady.addAll _).add _) (State.joins_add _ _) nothing stops
        (fun joins fuel big => ?_) big
      rw [tidyAll, State.addAll_append] at later
      exact later joins fuel big
termination_by sizeOf ts

/-! ## Reading a written document -/

/-- A document may begin with its first tag. -/
theorem readProlog_of_tag {c : Char} {cs : List Char} (named : isNameChar c = true) :
    readProlog ('<' :: c :: cs) = some ([], '<' :: c :: cs) := by
  have other {d : Char} (no : isNameChar d = false) : ¬ d = c := by
    rintro rfl
    exact absurd named (by simp [no])
  have ask : ¬ '?' = c := other (by decide)
  have bang : ¬ '!' = c := other (by decide)
  have declaration : afterWord "<?xml ".toList ('<' :: c :: cs) = none := by
    simp [afterWord, ask]
  have doctype : afterWord "<!DOCTYPE".toList ('<' :: c :: cs) = none := by
    simp [afterWord, bang]
  have misc (fuel : Nat) : skipMisc (fuel + 1) ('<' :: c :: cs) = some ('<' :: c :: cs) := by
    rw [skipMisc, skipSpaces_cons (by decide)]
    split <;> rename_i same
    · cases same
      exact absurd rfl bang
    · cases same
      exact absurd rfl ask
    · rfl
  simp only [readProlog, declaration, doctype, misc, Option.bind_eq_bind, Option.bind_some]
  rfl

theorem readRoot_write (standing : StandingTag [] tag declared plain)
    (writable : Writable standing.attributes) (below : ReadsBack (Scope.extend declared []) children)
    {fuel : Nat} (enough : (writeTree (.element tag standing.attributes children)).length < fuel) :
    readRoot fuel [] (writeTree (.element tag standing.attributes children)) =
      some ((Tree.element tag standing.attributes children).settled, []) := by
  rw [writeTree, writeElement] at enough ⊢
  refine readRoot_iff.2 ?_
  by_cases none : children = []
  · subst none
    rw [List.isEmpty_nil, if_pos rfl] at enough ⊢
    have closes := tagCloses_empty []
    refine ⟨State.start.addEmpty standing.element, ?_, rfl, rfl⟩
    refine .mk (standing.read_tag closes) (standing.read_attributes writable closes)
      (standing.normalize writable ?_) (standing.empty_tag writable rfl rfl) rfl
    rw [List.length_cons, List.length_append] at enough
    omega
  · rw [List.isEmpty_eq_false_iff.2 none, if_neg (by simp)] at enough ⊢
    have shape : writeHead tag standing.attributes ++
          '>' :: (writeTrees children ++ "</".toList ++ tag.toList ++ ['>']) =
        writeHead tag standing.attributes ++
          '>' :: (writeTrees children ++ '<' :: '/' :: (tag.toList ++ '>' :: [])) := by simp
    rw [shape] at enough ⊢
    rw [List.length_cons, List.length_append, List.length_cons] at enough
    have closes := tagCloses_opening (writeTrees children ++ '<' :: '/' :: (tag.toList ++ '>' :: []))
    let last : State := { State.start with started := true }.add
      (Tree.element tag standing.attributes children).settled
    have inside : (State.start.openElement standing.element).Steady (Scope.extend declared []) :=
      ⟨rfl, rfl, rfl, rfl⟩
    have nothing : Legal [] := by simp [Legal]
    have content : readContent fuel 0 (State.start.openElement standing.element)
        (writeTrees children ++ '<' :: '/' :: (tag.toList ++ '>' :: [])) = some (last, []) := by
      refine below inside rfl nothing rfl (fun joins fuel big => ?_) (by
        rw [List.flatMap_nil, List.nil_append]
        omega)
      obtain ⟨fuel, rfl⟩ : ∃ n, fuel = n + 1 := ⟨fuel - 1, by omega⟩
      exact readContent_iff.2 (.close standing.read_endTag (skipSpaces_cons (by decide))
        (State.closeElement_addAll _ rfl _ joins))
    refine ⟨last, ?_, rfl, rfl⟩
    exact .mk (standing.read_tag closes) (standing.read_attributes writable closes)
      (standing.normalize writable (by omega)) (standing.open_tag writable rfl rfl) content

/-- **A written tree whose names stand for themselves is read back settled.** -/
theorem read_writeTree {attributes : List (String × String)}
    (standing : Stands [] (.element tag attributes children))
    (writable : WritableTree (.element tag attributes children)) :
    Tree.read (writeTree (.element tag attributes children)) =
      some (Tree.element tag attributes children).settled := by
  obtain - | ⟨names, below⟩ := standing
  obtain - | ⟨here, below'⟩ := writable
  obtain ⟨name, restores⟩ := names.name
  obtain ⟨c, cs, key, named⟩ := restores.reads.head
  obtain ⟨more, begins⟩ : ∃ more, writeTree (.element tag names.attributes children) =
      '<' :: c :: more := by
    rw [writeTree, writeElement, writeHead, key]
    split <;> exact ⟨_, rfl⟩
  have marked : unmarked (writeTree (.element tag names.attributes children)) =
      writeTree (.element tag names.attributes children) := by
    rw [begins]
    rfl
  refine read_iff.2 ⟨[], writeTree (.element tag names.attributes children), [], ?_, ?_, rfl⟩
  · rw [marked, begins]
    exact readProlog_of_tag named
  · rw [marked]
    exact readRoot_write names here (readsBack children below below') (by omega)

end

end Infographic.Markup
