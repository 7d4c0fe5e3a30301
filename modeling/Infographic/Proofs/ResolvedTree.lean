/-
# Infographic.Proofs.ResolvedTree -- what holds of every tree that is read

Names are read in two parts that are names themselves.  A tree that is read comes from names
and attributes as they were written: in the scope of its parent, the start tag of every element
was resolved to the tag and the attributes it has (`Resolved`), and texts hold legal characters
only.  `resolved_of_read` derives this from one step of reading.
-/
import Infographic.Proofs.ReaderSteps
import Mathlib.Data.List.TakeWhile

namespace Infographic.Markup

set_option autoImplicit false

/-! ## Names -/

/-- A name without colon. -/
structure IsPart (cs : List Char) : Prop where
  begins : beginsName cs = true
  chars : ∀ c ∈ cs, isNameChar c = true
  plain : ':' ∉ cs

/-- Both parts of a qualified name are names; the qualifier may be missing. -/
structure QualifiedName.Proper (q : QualifiedName) : Prop where
  localName : IsPart q.localName
  qualifier : q.qualifier = [] ∨ IsPart q.qualifier

theorem not_mem_takeWhile_ne {c : Char} {cs : List Char} : c ∉ cs.takeWhile (· != c) := by
  intro inside
  simpa using List.all_eq_true.1 List.all_takeWhile c inside

theorem QualifiedName.proper_of_ofRun {run : List Char} {q : QualifiedName}
    (chars : ∀ c ∈ run, isNameChar c = true) (found : ofRun run = some q) : q.Proper := by
  rw [ofRun.eq_def] at found
  split at found
  · rename_i plain
    split at found
    · rename_i begins
      cases found
      refine ⟨⟨begins, chars, fun colon => ?_⟩, .inl rfl⟩
      simpa using List.dropWhile_eq_nil_iff.1 plain _ colon
    · cases found
  · rename_i localName behind
    have cut := List.takeWhile_append_dropWhile (p := (· != ':')) (l := run)
    rw [behind] at cut
    simp only at found
    split at found
    · cases found
    · rename_i named
      simp only [Bool.or_eq_true, List.contains_iff_mem, Bool.not_eq_true', not_or,
        Bool.not_eq_false] at named
      split at found
      · cases found
      · rename_i qualified
        cases found
        have part : ∀ c ∈ localName, isNameChar c = true := fun c member =>
          chars c (by rw [← cut]; simp [member])
        refine ⟨⟨named.2, part, named.1⟩, ?_⟩
        by_cases missing : run.takeWhile (· != ':') = []
        · exact .inl missing
        · refine .inr ⟨?_, fun c member => ?_, not_mem_takeWhile_ne⟩
          · simpa [missing] using qualified
          · exact chars c (List.takeWhile_subset _ member)

theorem QualifiedName.proper_of_read {cs rest : List Char} {q : QualifiedName}
    (read : QualifiedName.read cs = some (q, rest)) : q.Proper := by
  obtain ⟨q', found, same⟩ := Option.map_eq_some_iff.1 read
  cases same
  exact proper_of_ofRun (fun c member => List.all_eq_true.1 List.all_takeWhile c member) found

theorem names_of_readAttributes {fuel : Nat} {cs : List Char}
    {out : List (QualifiedName × List Char) × TagEnd × List Char}
    (read : readAttributes fuel cs = some out) : ∀ a ∈ out.1, a.1.Proper := by
  induction fuel generalizing cs out with
  | zero => cases read
  | succ fuel ih =>
      cases readAttributes_iff.1 read with
      | broken => simp
      | empty => simp
      | opening => simp
      | more first later =>
          obtain ⟨-, named, -, -, -, -⟩ := first
          intro a member
          rcases List.mem_cons.1 member with rfl | member
          · exact QualifiedName.proper_of_read named
          · exact ih later a member

theorem names_of_normalizeAttributes {entities : Entities} {fuel : Nat} {nesting : Nesting}
    {raw : List (QualifiedName × List Char)} {out : Nesting × List RawAttribute}
    (normal : normalizeAttributes entities fuel nesting raw = some out)
    (proper : ∀ a ∈ raw, a.1.Proper) : ∀ a ∈ out.2, a.name.Proper := by
  induction raw generalizing nesting out with
  | nil =>
      cases normal
      simp
  | cons a others ih =>
      obtain ⟨⟨inner, acc⟩, -, normal⟩ := Option.bind_eq_some_iff.1 normal
      obtain ⟨⟨last, more⟩, later, normal⟩ := Option.bind_eq_some_iff.1 normal
      cases normal
      intro b member
      rcases List.mem_cons.1 member with rfl | member
      · exact proper a List.mem_cons_self
      · exact ih later (fun c inside => proper c (List.mem_cons_of_mem a inside)) b member

/-! ## Attributes and declarations -/

/-- A declaration that may be made: no reserved name, and a qualifier that is a name. -/
structure Declaration.Proper (d : Declaration) : Prop where
  qualifier : ∀ q ∈ d.qualifier, IsPart q.toList ∧ q ≠ "xml"
  uri : d.uri ≠ xmlNamespace ∧ d.uri ≠ xmlnsNamespace

/-- An attribute that declares nothing. -/
structure RawAttribute.Proper (a : RawAttribute) : Prop where
  name : a.name.Proper
  qualifier : a.name.qualifier ≠ "xmlns".toList
  localName : a.name.localName ≠ "xmlns".toList

namespace SortedAttributes

/-- Declarations that may be made, each qualifier once, and attributes that declare nothing. -/
structure Proper (sorted : SortedAttributes) : Prop where
  declarations : ∀ d ∈ sorted.declarations, d.Proper
  distinct : (sorted.declarations.filterMap Declaration.qualifier).Nodup
  attributes : ∀ a ∈ sorted.attributes, a.Proper

theorem proper_none : Proper .none := ⟨by simp [none], by simp [none], by simp [none]⟩

variable {sorted out : SortedAttributes}

/-- One more declaration, of a qualifier that is not declared yet. -/
theorem Proper.declare (proper : sorted.Proper) {d : Declaration} (may : d.Proper)
    (fresh : ∀ q ∈ d.qualifier, ∀ e ∈ sorted.declarations, e.qualifier ≠ some q) :
    ({ sorted with declarations := sorted.declarations ++ [d] } : SortedAttributes).Proper := by
  refine ⟨fun e member => ?_, ?_, proper.attributes⟩
  · rcases List.mem_append.1 member with old | new
    · exact proper.declarations e old
    · rw [List.mem_singleton.1 new]
      exact may
  · rw [List.filterMap_append]
    cases qualifier : d.qualifier with
    | none => simpa [qualifier] using proper.distinct
    | some q =>
        rw [List.filterMap_cons_some qualifier, List.filterMap_nil]
        refine List.nodup_append.2 ⟨proper.distinct, by simp, ?_⟩
        rintro r member q' single rfl
        obtain ⟨e, old, same⟩ := List.mem_filterMap.1 member
        rw [List.mem_singleton.1 single] at same
        exact fresh q qualifier e old same

theorem Proper.add (proper : sorted.Proper) {a : RawAttribute} (named : a.name.Proper)
    (sorts : sorted.add a = some out) : out.Proper := by
  cases add_iff.1 sorts with
  | xml => exact proper
  | qualified _ notXml allowed fresh =>
      have part : IsPart (String.ofList a.name.localName).toList := by
        rw [String.toList_ofList]
        exact named.localName
      refine proper.declare ⟨by rintro q ⟨⟩; exact ⟨part, notXml⟩, allowed⟩ ?_
      rintro q ⟨⟩
      exact fresh
  | default _ _ allowed => exact proper.declare ⟨by simp, allowed⟩ (by simp)
  | plain declares other =>
      refine ⟨proper.declarations, proper.distinct, fun b member => ?_⟩
      rcases List.mem_append.1 member with old | new
      · exact proper.attributes b old
      · rw [List.mem_singleton.1 new]
        exact ⟨named, declares, other⟩

theorem Proper.addAll (proper : sorted.Proper) {attributes : List RawAttribute}
    (named : ∀ a ∈ attributes, a.name.Proper) (sorts : sorted.addAll attributes = some out) :
    out.Proper := by
  induction attributes generalizing sorted with
  | nil =>
      cases sorts
      exact proper
  | cons a others ih =>
      obtain ⟨next, first, later⟩ := Option.bind_eq_some_iff.1 sorts
      exact ih (proper.add (named a List.mem_cons_self) first)
        (fun b member => named b (List.mem_cons_of_mem a member)) later

end SortedAttributes

/-! ## Trees -/

/-- Resolve a start tag in the scope of its parent. -/
def Scope.resolve (inherited : Scope) (name : QualifiedName) (sorted : SortedAttributes) :
    Option OpenElement := do
  let scope := Scope.extend sorted.declarations inherited
  let resolved ← resolveAttributes scope sorted.attributes
  let tag ← resolveTag scope name
  let declared := (scope.fresh inherited).map Declaration.toAttribute
  return ⟨name, tag, declared ++ resolved, scope, []⟩

/-- An open element without children is what its start tag was resolved to. -/
structure OpenElement.Resolved (inherited : Scope) (e : OpenElement) : Prop where
  name : e.name.Proper
  declares : e.name.qualifier ≠ "xmlns".toList
  attributes : ∃ sorted : SortedAttributes, sorted.Proper ∧
    inherited.resolve e.name sorted = some { e with children := [] }

theorem OpenElement.Resolved.withChildren {inherited : Scope} {e : OpenElement}
    (tag : e.Resolved inherited) (children : List Tree) :
    ({ e with children } : OpenElement).Resolved inherited :=
  ⟨tag.name, tag.declares, tag.attributes⟩

/-- Every character may stand in a document. -/
def Legal (cs : List Char) : Prop := ∀ c ∈ cs, isXmlChar c = true

instance (cs : List Char) : Decidable (Legal cs) :=
  List.decidableBAll _ cs

/-- A tree in the scope of its parent comes from names and attributes as they were written. -/
inductive Resolved : Scope → Tree → Prop
  | text {inherited : Scope} {s : String} (legal : Legal s.toList) : Resolved inherited (.text s)
  | element {inherited : Scope} {e : OpenElement} {children : List Tree}
      (tag : e.Resolved inherited) (below : ∀ c ∈ children, Resolved e.scope c) :
      Resolved inherited (.element e.tag e.attributes children)

/-- The declarations in scope inside the innermost of some open elements. -/
def innerScope : List OpenElement → Scope
  | [] => []
  | e :: _ => e.scope

/-- Open elements are resolved inside each other, and so are their children so far. -/
inductive StackResolved : List OpenElement → Prop
  | nil : StackResolved []
  | cons {e : OpenElement} {outer : List OpenElement} (inside : StackResolved outer)
      (tag : e.Resolved (innerScope outer)) (below : ∀ c ∈ e.children, Resolved e.scope c) :
      StackResolved (e :: outer)

namespace State

/-- Everything that was read so far is resolved. -/
structure Resolved (st : State) : Prop where
  stack : StackResolved st.stack
  root : ∀ t ∈ st.root, Markup.Resolved [] t
  pending : st.pending.Proper

variable {st : State}

theorem scope_eq (st : State) : st.scope = innerScope st.stack := by
  rw [scope]
  cases st.stack <;> rfl

theorem Resolved.add (resolved : st.Resolved) {t : Tree} (tree : Markup.Resolved st.scope t) :
    (st.add t).Resolved := by
  rw [State.add]
  obtain ⟨stack, root, pending⟩ := resolved
  rw [scope_eq] at tree
  split
  · rename_i outermost
    rw [outermost] at tree
    refine ⟨outermost ▸ .nil, fun u member => ?_, pending⟩
    rcases Option.or_eq_some_iff.1 member with old | ⟨-, new⟩
    · exact root u old
    · cases new
      exact tree
  · rename_i e outer opened
    rw [opened] at stack tree
    obtain - | ⟨inside, tag, below⟩ := stack
    refine ⟨.cons inside (tag.withChildren _) fun c member => ?_, root, pending⟩
    rcases List.mem_cons.1 member with rfl | old
    · exact tree
    · exact below c old

theorem Resolved.addText (resolved : st.Resolved) {cs : List Char} (legal : Legal cs) :
    (st.addText cs).Resolved := by
  rw [State.addText]
  split
  · rename_i e outer joins opened
    obtain ⟨stack, root, pending⟩ := resolved
    rw [opened] at stack
    obtain - | ⟨inside, tag, below⟩ := stack
    split
    · rename_i s others children
      rw [children] at below
      refine ⟨.cons inside (tag.withChildren _) fun c member => ?_, root, pending⟩
      rcases List.mem_cons.1 member with rfl | old
      · obtain ⟨before⟩ := below (.text s) List.mem_cons_self
        refine .text fun c member => ?_
        rw [String.toList_append, String.toList_ofList, List.mem_append] at member
        exact member.elim (before c) (legal c)
      · exact below c (List.mem_cons_of_mem _ old)
    · exact ⟨opened ▸ .cons inside tag below, root, pending⟩
  · have added := resolved.add (t := .text (String.ofList cs)) (.text (by simpa using legal))
    exact ⟨added.stack, added.root, added.pending⟩

/-- What a start tag opens stands for its name, and has no children yet. -/
theorem Resolved.resolve (resolved : st.Resolved) {name : QualifiedName}
    {attributes : List RawAttribute} {sorted : SortedAttributes} {e : OpenElement}
    (named : name.Proper) (proper : ∀ a ∈ attributes, a.name.Proper)
    (declares : name.qualifier ≠ "xmlns".toList)
    (sorts : st.pending.addAll attributes = some sorted)
    (resolves : st.resolve name sorted = some e) :
    e.Resolved (innerScope st.stack) ∧ e.children = [] := by
  have sound := resolved.pending.addAll proper sorts
  rw [← scope_eq]
  have again := resolves
  obtain ⟨attributes, -, resolves⟩ := Option.bind_eq_some_iff.1 resolves
  obtain ⟨tag, -, resolves⟩ := Option.bind_eq_some_iff.1 resolves
  cases resolves
  exact ⟨⟨named, declares, sorted, sound, again⟩, rfl⟩

theorem Resolved.addStartTag (resolved : st.Resolved) {name : QualifiedName}
    {attributes : List RawAttribute} {ending : TagEnd} {next : State} (named : name.Proper)
    (proper : ∀ a ∈ attributes, a.name.Proper)
    (added : st.addStartTag name attributes ending = some next) : next.Resolved := by
  cases addStartTag_iff.1 added with
  | broken _ sorts => exact ⟨resolved.stack, resolved.root, resolved.pending.addAll proper sorts⟩
  | @empty sorted e declares sorts resolves =>
      obtain ⟨tag, -⟩ := resolved.resolve named proper declares sorts resolves
      have plain := resolved.add (t := .element e.tag e.attributes []) (by
        rw [scope_eq]
        exact .element tag (by simp))
      exact ⟨plain.stack, plain.root, SortedAttributes.proper_none⟩
  | opening declares sorts resolves =>
      obtain ⟨opens, childless⟩ := resolved.resolve named proper declares sorts resolves
      exact ⟨.cons resolved.stack opens (by simp [childless]), resolved.root,
        SortedAttributes.proper_none⟩

theorem Resolved.closeElement (resolved : st.Resolved) {name : QualifiedName} {next : State}
    (closes : st.closeElement name = some next) : next.Resolved := by
  obtain @⟨e, outer, _, opened, -, -⟩ := closeElement_iff.1 closes
  obtain ⟨stack, root, -⟩ := resolved
  rw [opened] at stack
  obtain - | ⟨inside, tag, below⟩ := stack
  have outerResolved : ({ st with stack := outer, pending := .none } : State).Resolved :=
    ⟨inside, root, SortedAttributes.proper_none⟩
  refine outerResolved.add ?_
  rw [scope_eq]
  exact .element tag fun c member => below c (List.mem_reverse.1 member)

end State

/-! ## Characters of texts -/

section

variable {cs rest : List Char}

theorem legal_pushText {acc : List Char} (legal : Legal acc) {c : Char}
    (char : isXmlChar c = true) (last : Bool) : Legal (pushText acc c last) := by
  have feed : isXmlChar '\n' = true := by decide
  have tail {d : Char} {more : List Char} (whole : Legal (d :: more)) : Legal more :=
    fun e member => whole e (List.mem_cons_of_mem d member)
  have both {d : Char} {more : List Char} (first : isXmlChar d = true) (later : Legal more) :
      Legal (d :: more) := by
    intro e member
    rcases List.mem_cons.1 member with rfl | member
    · exact first
    · exact later e member
  rw [pushText.eq_def]
  split
  · split
    · exact both feed (both feed (tail legal))
    · split
      · exact both char (both feed (tail legal))
      · exact both feed (tail legal)
  · split
    · exact both feed legal
    · exact both char legal

theorem legal_sectionText {acc : List Char} (legal : Legal acc) (chars : Legal cs) :
    Legal (sectionText acc cs) := by
  induction cs generalizing acc with
  | nil => exact fun c member => legal c (List.mem_reverse.1 member)
  | cons c cs ih =>
      exact ih (legal_pushText legal (chars c List.mem_cons_self) _)
        fun d member => chars d (List.mem_cons_of_mem c member)

theorem suffix_of_readCharNumber {n : Nat} (read : readCharNumber cs = some (n, rest)) :
    rest <:+ cs := by
  rw [readCharNumber.eq_def] at read
  split at read
  · dsimp only at read
    split at read
    · cases read
    · cases read
      exact (List.dropWhile_suffix _).trans (List.suffix_cons _ _)
  · dsimp only at read
    split at read
    · cases read
    · cases read
      exact List.dropWhile_suffix _

theorem suffix_of_readName {name : List Char} (read : readName cs = some (name, rest)) :
    rest <:+ cs := by
  rw [readName.eq_def] at read
  split at read
  · cases read
  · split at read
    · cases read
      exact (List.dropWhile_suffix _).trans (List.suffix_cons _ _)
    · cases read

/-- What follows a reference is left, and a character referred to is legal. -/
theorem readReference_cases {r : Reference} (read : readReference cs = some (r, rest)) :
    rest <:+ cs ∧ ∀ c, r = .char c → isXmlChar c = true := by
  rw [readReference] at read
  split at read
  · rename_i r' rest' body
    cases read
    have behind : rest <:+ ';' :: rest := List.suffix_cons _ _
    rw [readReferenceBody.eq_def] at body
    split at body
    · obtain ⟨⟨n, more⟩, number, body⟩ := Option.bind_eq_some_iff.1 body
      dsimp only at body
      split at body
      · rename_i legal
        cases body
        refine ⟨behind.trans ((suffix_of_readCharNumber number).trans (List.suffix_cons _ _)), ?_⟩
        rintro c ⟨⟩
        exact legal
      · cases body
    · obtain ⟨⟨name, more⟩, named, body⟩ := Option.bind_eq_some_iff.1 body
      cases body
      refine ⟨behind.trans (suffix_of_readName named), fun c same => ?_⟩
      split at same
      · cases same; decide
      · split at same
        · cases same; decide
        · split at same
          · cases same; decide
          · split at same
            · cases same; decide
            · split at same
              · cases same; decide
              · cases same
  · cases read

theorem Legal.suffix (legal : Legal cs) (left : rest <:+ cs) : Legal rest :=
  fun c member => legal c (left.subset member)

end

/-! ## What reading keeps -/

/-- A property of states that every step of reading keeps. -/
structure State.Kept (P : State → Prop) : Prop where
  mode : ∀ {st : State} (nesting : Nesting) (joins started : Bool), P st →
    P { st with nesting, joins, started }
  text : ∀ {st : State} {cs : List Char}, P st → Legal cs → P (st.addText cs)
  tag : ∀ {st next : State} {name : QualifiedName} {attributes : List RawAttribute}
    {ending : TagEnd}, P st → name.Proper → (∀ a ∈ attributes, a.name.Proper) →
    st.addStartTag name attributes ending = some next → P next
  close : ∀ {st next : State} {name : QualifiedName}, P st → st.closeElement name = some next →
    P next

namespace State.Kept

variable {P : State → Prop}

theorem flush (kept : Kept P) {st : State} (holds : P st) {acc : List Char} (legal : Legal acc) :
    P (st.flush acc) := by
  rw [State.flush]
  split
  · exact holds
  · exact kept.text holds fun c member => legal c (List.mem_reverse.1 member)

/-- **Reading content and text keeps what every step keeps.** -/
theorem readContent (kept : Kept P) (fuel : Nat) :
    (∀ level st cs out, Markup.readContent fuel level st cs = some out → P st → P out.1) ∧
    ∀ st acc asIs cs out, readText fuel st acc asIs cs = some out → Legal acc → Legal cs →
      P st → P out := by
  induction fuel with
  | zero => exact ⟨nofun, nofun⟩
  | succ fuel ih =>
      obtain ⟨content, text⟩ := ih
      constructor
      · intro level st cs out read holds
        cases readContent_iff.1 read with
        | done => exact holds
        | comment skipped later => exact content _ _ _ _ later (kept.mode _ _ _ holds)
        | characters opens closes legal later =>
            refine content _ _ _ _ later (kept.text holds (legal_sectionText (by simp [Legal]) ?_))
            exact fun c member => List.all_eq_true.1 legal c member
        | instruction skipped later => exact content _ _ _ _ later (kept.mode _ _ _ holds)
        | close named ends closes => exact kept.close holds closes
        | closeInner named ends closes later => exact content _ _ _ _ later (kept.close holds closes)
        | tag named listed normal added later =>
            exact content _ _ _ _ later (kept.tag (kept.mode _ _ _ holds)
              (QualifiedName.proper_of_read named)
              (names_of_normalizeAttributes normal (names_of_readAttributes listed)) added)
        | text nonempty plain legal words later =>
            rw [isLegalText, Bool.and_eq_true, List.all_eq_true] at legal
            exact content _ _ _ _ later (text _ _ _ _ _ words (by simp [Legal]) legal.1 holds)
      · intro st acc asIs cs out read before chars holds
        cases readText_iff.1 read with
        | done => exact kept.flush holds before
        | inner refers deep later =>
            obtain ⟨left, char⟩ := readReference_cases refers
            have chars := chars.suffix (List.suffix_cons _ _)
            exact text _ _ _ _ _ later (legal_pushText before (char _ rfl) _) (chars.suffix left)
              holds
        | outer refers flat later =>
            obtain ⟨left, char⟩ := readReference_cases refers
            have chars := chars.suffix (List.suffix_cons _ _)
            refine text _ _ _ _ _ later (fun c member => ?_) (chars.suffix left) holds
            rcases List.mem_cons.1 member with rfl | member
            · exact char _ rfl
            · exact before c member
        | entity refers declared entered inside later =>
            obtain ⟨left, -⟩ := readReference_cases refers
            have chars := chars.suffix (List.suffix_cons _ _)
            have middle := content _ _ _ _ inside (kept.mode _ _ _ (kept.flush holds before))
            exact text _ _ _ _ _ later (by simp [Legal]) (chars.suffix left)
              (kept.mode _ _ _ middle)
        | char plain later =>
            have legal := chars _ List.mem_cons_self
            have chars := chars.suffix (List.suffix_cons _ _)
            refine text _ _ _ _ _ later ?_ chars holds
            split
            · intro c member
              rcases List.mem_cons.1 member with rfl | member
              · exact legal
              · exact before c member
            · exact legal_pushText before legal _

end State.Kept

/-! ## Reading -/

theorem State.kept_resolved : Kept Resolved where
  mode _ _ _ resolved := ⟨resolved.stack, resolved.root, resolved.pending⟩
  text resolved legal := resolved.addText legal
  tag resolved named proper added := resolved.addStartTag named proper added
  close resolved closes := resolved.closeElement closes

/-- **Every tree that is read comes from names and attributes as they were written.** -/
theorem resolved_of_read {cs : List Char} {t : Tree} (read : Tree.read cs = some t) :
    Resolved [] t := by
  obtain ⟨entities, root, rest, -, element, -⟩ := read_iff.1 read
  obtain ⟨last, ⟨named, listed, normal, added, content⟩, -, found⟩ := readRoot_iff.1 element
  have started (nesting : Nesting) : ({ State.start with entities, nesting } : State).Resolved :=
    ⟨.nil, by simp [State.start], SortedAttributes.proper_none⟩
  have opened := (started _).addStartTag (QualifiedName.proper_of_read named)
    (names_of_normalizeAttributes normal (names_of_readAttributes listed)) added
  have resolved : last.Resolved := by
    split at content
    · exact (State.kept_resolved.readContent _).1 _ _ _ _ content opened
    · cases content
      exact opened
    · cases content
      exact opened
  exact resolved.root t found

/-- The outermost element is open or finished, and no text stands in its place. -/
structure State.Rooted (st : State) : Prop where
  finished : st.stack = [] → st.root.isSome = true
  element : ∀ t ∈ st.root, ∃ tag attributes children, t = .element tag attributes children

namespace State.Rooted

variable {st : State}

theorem add (rooted : st.Rooted) (t : Tree) : (st.add t).Rooted := by
  obtain ⟨finished, element⟩ := rooted
  rw [State.add]
  split
  · rename_i nothing
    obtain ⟨u, root⟩ := Option.isSome_iff_exists.1 (finished nothing)
    have same : st.root.or (some t) = st.root := by
      rw [root]
      rfl
    exact ⟨fun _ => by rw [same]; exact finished nothing, by rw [same]; exact element⟩
  · exact ⟨nofun, element⟩

theorem addElement {stack : List OpenElement} {pending : SortedAttributes}
    (element : ∀ t ∈ st.root, ∃ tag attributes children, t = .element tag attributes children)
    (tag : String) (attributes : List (String × String)) (children : List Tree) :
    ({ st with stack, pending }.add (.element tag attributes children)).Rooted := by
  rw [State.add]
  split
  · refine ⟨fun _ => by cases st.root <;> rfl, fun t member => ?_⟩
    rcases Option.or_eq_some_iff.1 member with old | ⟨-, new⟩
    · exact element t old
    · cases new
      exact ⟨tag, attributes, children, rfl⟩
  · exact ⟨nofun, element⟩

theorem kept : Kept Rooted where
  mode _ _ _ rooted := ⟨rooted.finished, rooted.element⟩
  text {st cs} rooted _ := by
    rw [addText]
    split
    · split
      · exact ⟨nofun, rooted.element⟩
      · exact rooted
    · have added := rooted.add (.text (String.ofList cs))
      exact ⟨added.finished, added.element⟩
  tag {st next name attributes ending} rooted _ _ added := by
    cases addStartTag_iff.1 added with
    | broken => exact ⟨rooted.finished, rooted.element⟩
    | @empty _ e =>
        have closed := rooted.add (.element e.tag e.attributes [])
        exact ⟨closed.finished, closed.element⟩
    | opening => exact ⟨nofun, rooted.element⟩
  close rooted closes := by
    cases closeElement_iff.1 closes
    exact addElement rooted.element _ _ _

end State.Rooted

/-- What is read is an element. -/
theorem element_of_read {cs : List Char} {t : Tree} (read : Tree.read cs = some t) :
    ∃ tag attributes children, t = .element tag attributes children := by
  obtain ⟨entities, root, rest, -, element, -⟩ := read_iff.1 read
  obtain ⟨last, ⟨named, listed, normal, added, content⟩, -, found⟩ := readRoot_iff.1 element
  cases State.addStartTag_iff.1 added with
  | broken =>
      cases content
      cases found
  | empty =>
      cases content
      exact ⟨_, _, _, (Option.some.inj found).symm⟩
  | @opening _ e =>
      have opened (st : State) (empty : st.root = none) : (st.openElement e).Rooted :=
        ⟨nofun, by simp [State.openElement, empty]⟩
      exact ((State.Rooted.kept.readContent _).1 _ _ _ _ content (opened _ rfl)).element t found

end Infographic.Markup
