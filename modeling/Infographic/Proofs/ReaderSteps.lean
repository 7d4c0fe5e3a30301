/-
# Infographic.Proofs.ReaderSteps -- what reading content does, step by step

One unit of fuel reads one token of content, or one character or reference of a text or of the
value of an attribute.  `ContentStep`, `TextStep` and `ValueStep` list what a step can do, with all
its conditions; `readContent_iff`, `readText_iff` and `normalizeValue_iff` say that the readers do
just that.  `SortStep` lists what becomes of an attribute, `StartTagStep` and `EndTagStep` what tags
do to the state.  More fuel never changes what is read (`readContent_mono`).
-/
import Infographic.Markup.Reader

namespace Infographic.Markup

set_option autoImplicit false

open Infographic.Text (afterWord cutAt)

/-! ## Spaces and names -/

theorem not_isSpace_of_isNameChar {c : Char} (named : isNameChar c = true) :
    isSpace c = false := by
  rw [Bool.eq_false_iff]
  intro space
  simp only [isSpace, Bool.or_eq_true, beq_iff_eq] at space
  rcases space with ((rfl | rfl) | rfl) | rfl <;> exact absurd named (by decide)

theorem skipSpaces_cons {c : Char} {cs : List Char} (solid : isSpace c = false) :
    skipSpaces (c :: cs) = c :: cs :=
  List.dropWhile_cons_of_neg (by simp [solid])

/-! ## Attributes of a start tag -/

/-- One attribute behind spaces, its value not normalized, and what follows it. -/
inductive AttributeRead : List Char → QualifiedName × List Char → List Char → Prop
  | mk {cs spaced afterName afterMark inside value behind : List Char} {name : QualifiedName}
      {quote : Char} (spaces : needSpaces cs = some spaced)
      (named : QualifiedName.read (skipSpaces cs) = some (name, afterName))
      (mark : skipSpaces afterName = '=' :: afterMark)
      (quoted : readQuote (skipSpaces afterMark) = some (quote, inside))
      (valued : readQuoted quote inside = some (value, behind))
      (legal : value.all (fun c => isXmlChar c && c != '<') = true) :
      AttributeRead cs (name, value) behind

/-- What one step of reading the attributes of a start tag does. -/
inductive AttributesStep (fuel : Nat) :
    List Char → List (QualifiedName × List Char) × TagEnd × List Char → Prop
  | broken : AttributesStep fuel [] ([], .broken, [])
  | empty {cs rest : List Char} (ends : skipSpaces cs = '/' :: '>' :: rest) :
      AttributesStep fuel cs ([], .empty, rest)
  | opening {cs rest : List Char} (ends : skipSpaces cs = '>' :: rest) :
      AttributesStep fuel cs ([], .opening, rest)
  | more {cs behind rest : List Char} {a : QualifiedName × List Char}
      {others : List (QualifiedName × List Char)} {ending : TagEnd}
      (first : AttributeRead cs a behind)
      (later : readAttributes fuel behind = some (others, ending, rest)) :
      AttributesStep fuel cs (a :: others, ending, rest)

/-- A qualified name begins with a character of a name. -/
theorem QualifiedName.exists_of_read {cs rest : List Char} {q : QualifiedName}
    (named : QualifiedName.read cs = some (q, rest)) :
    ∃ c more, cs = c :: more ∧ isNameChar c = true := by
  obtain ⟨q, whole, -⟩ := Option.map_eq_some_iff.1 named
  match cs with
  | [] => cases whole
  | c :: more =>
      refine ⟨c, more, rfl, ?_⟩
      cases known : isNameChar c with
      | true => rfl
      | false =>
          rw [List.takeWhile_cons_of_neg (by simp [known])] at whole
          cases whole

theorem readAttributes_iff {fuel : Nat} {cs : List Char}
    {out : List (QualifiedName × List Char) × TagEnd × List Char} :
    readAttributes (fuel + 1) cs = some out ↔ AttributesStep fuel cs out := by
  constructor
  · intro read
    rw [readAttributes.eq_def] at read
    split at read
    · rename_i none
      cases none
    · cases read
      exact .broken
    · rename_i same _
      cases same
      split at read
      · rename_i ends
        cases read
        exact .empty ends
      · cases read
      · rename_i ends
        cases read
        exact .opening ends
      · obtain ⟨_, spaces, read⟩ := Option.bind_eq_some_iff.1 read
        obtain ⟨⟨name, rest⟩, named, read⟩ := Option.bind_eq_some_iff.1 read
        dsimp only at read
        split at read
        · rename_i rest mark
          obtain ⟨⟨quote, inside⟩, quoted, read⟩ := Option.bind_eq_some_iff.1 read
          obtain ⟨⟨value, behind⟩, valued, read⟩ := Option.bind_eq_some_iff.1 read
          dsimp only at read
          split at read
          · rename_i legal
            obtain ⟨⟨others, ending, rest⟩, later, read⟩ := Option.bind_eq_some_iff.1 read
            cases read
            exact .more (.mk spaces named mark quoted valued legal) later
          · cases read
        · cases read
  · intro step
    cases step with
    | broken => rfl
    | empty ends =>
        cases cs with
        | nil => cases ends
        | cons c cs => simp only [readAttributes, ends]
    | opening ends =>
        cases cs with
        | nil => cases ends
        | cons c cs => simp only [readAttributes, ends]
    | more first later =>
        obtain ⟨spaces, named, mark, quoted, valued, legal⟩ := first
        obtain ⟨c, more, begins, known⟩ := QualifiedName.exists_of_read named
        have other {d : Char} (no : isNameChar d = false) : c ≠ d := by
          rintro rfl
          exact absurd known (by simp [no])
        cases cs with
        | nil => cases begins
        | cons d cs =>
            simp only [readAttributes]
            split <;> rename_i ends
            · exact (other (by decide) (List.cons.inj (begins.symm.trans ends)).1).elim
            · exact (other (by decide) (List.cons.inj (begins.symm.trans ends)).1).elim
            · exact (other (by decide) (List.cons.inj (begins.symm.trans ends)).1).elim
            · simp only [spaces, named, mark, quoted, valued, legal, later, Option.bind_eq_bind,
                Option.bind_some, if_true]
              rfl

/-! ## Steps -/

/-- Add the text read so far (backwards), if there is any. -/
def State.flush (st : State) (acc : List Char) : State :=
  if acc.isEmpty then st else st.addText acc.reverse

/-- How many elements are open behind a start tag. -/
def TagEnd.levelIn (level : Nat) : TagEnd → Nat
  | .opening => level + 1
  | .empty | .broken => level

/-- What one step of reading content does, the last state and what is left being known. -/
inductive ContentStep (fuel : Nat) : Nat → State → List Char → State × List Char → Prop
  | done {level : Nat} {st : State} : ContentStep fuel level st [] (st, [])
  | comment {level : Nat} {st : State} {cs rest : List Char} {out : State × List Char}
      (skipped : skipComment cs = some rest)
      (later : readContent fuel level { st with joins := false } rest = some out) :
      ContentStep fuel level st ('<' :: '!' :: '-' :: '-' :: cs) out
  | characters {level : Nat} {st : State} {cs inside body rest : List Char}
      {out : State × List Char} (opens : afterWord "[CDATA[".toList cs = some inside)
      (closes : cutAt "]]>".toList inside = some (body, rest)) (legal : body.all isXmlChar = true)
      (later : readContent fuel level (st.addText (sectionText [] body)) rest = some out) :
      ContentStep fuel level st ('<' :: '!' :: cs) out
  | instruction {level : Nat} {st : State} {cs rest : List Char} {out : State × List Char}
      (skipped : skipInstruction cs = some rest)
      (later : readContent fuel level { st with joins := false } rest = some out) :
      ContentStep fuel level st ('<' :: '?' :: cs) out
  | close {st closed : State} {cs behind rest : List Char} {name : QualifiedName}
      (named : QualifiedName.read cs = some (name, behind)) (ends : skipSpaces behind = '>' :: rest)
      (closes : st.closeElement name = some closed) :
      ContentStep fuel 0 st ('<' :: '/' :: cs) (closed, rest)
  | closeInner {level : Nat} {st closed : State} {cs behind rest : List Char}
      {name : QualifiedName} {out : State × List Char}
      (named : QualifiedName.read cs = some (name, behind)) (ends : skipSpaces behind = '>' :: rest)
      (closes : st.closeElement name = some closed)
      (later : readContent fuel level closed rest = some out) :
      ContentStep fuel (level + 1) st ('<' :: '/' :: cs) out
  | tag {level : Nat} {st next : State} {cs behind rest : List Char} {name : QualifiedName}
      {raw : List (QualifiedName × List Char)} {ending : TagEnd} {nesting : Nesting}
      {attributes : List RawAttribute} {out : State × List Char}
      (named : QualifiedName.read cs = some (name, behind))
      (listed : readAttributes behind.length.succ behind = some (raw, ending, rest))
      (normal : normalizeAttributes st.entities fuel st.nesting raw = some (nesting, attributes))
      (added : { st with nesting }.addStartTag name attributes ending = some next)
      (later : readContent fuel (ending.levelIn level) next rest = some out) :
      ContentStep fuel level st ('<' :: cs) out
  | text {level : Nat} {st next : State} {cs : List Char} {out : State × List Char}
      (nonempty : cs ≠ []) (plain : cs.head? ≠ some '<')
      (legal : isLegalText (cs.takeWhile (· != '<')) = true)
      (words : readText fuel st [] false (cs.takeWhile (· != '<')) = some next)
      (later : readContent fuel level next (cs.dropWhile (· != '<')) = some out) :
      ContentStep fuel level st cs out

/-- What one step of reading a text does, the last state being known. -/
inductive TextStep (fuel : Nat) : State → List Char → Bool → List Char → State → Prop
  | done {st : State} {acc : List Char} {asIs : Bool} :
      TextStep fuel st acc asIs [] (st.flush acc)
  | inner {st out : State} {acc cs rest : List Char} {asIs : Bool} {c : Char}
      (refers : readReference cs = some (.char c, rest)) (deep : 0 < st.nesting.depth)
      (later : readText fuel st (pushText acc c rest.isEmpty) asIs rest = some out) :
      TextStep fuel st acc asIs ('&' :: cs) out
  | outer {st out : State} {acc cs rest : List Char} {asIs : Bool} {c : Char}
      (refers : readReference cs = some (.char c, rest)) (flat : ¬ 0 < st.nesting.depth)
      (later : readText fuel st (c :: acc) true rest = some out) :
      TextStep fuel st acc asIs ('&' :: cs) out
  | entity {st inside out : State} {acc cs rest name value left : List Char} {asIs : Bool}
      {nesting : Nesting} (refers : readReference cs = some (.entity name, rest))
      (declared : st.entities.find? name = some value)
      (entered : (st.flush acc).nesting.enter = some nesting)
      (content : readContent fuel 0 { st.flush acc with nesting, started := false } value =
        some (inside, left))
      (later : readText fuel
        { inside with nesting := inside.nesting.leave, started := (st.flush acc).started }
        [] false rest = some out) :
      TextStep fuel st acc asIs ('&' :: cs) out
  | char {st out : State} {acc rest : List Char} {asIs : Bool} {c : Char} (plain : c ≠ '&')
      (later : readText fuel st (if asIs then c :: acc else pushText acc c rest.isEmpty) false rest =
        some out) :
      TextStep fuel st acc asIs (c :: rest) out

variable {fuel level : Nat} {st : State} {cs : List Char}

theorem readContent_levelIn (ending : TagEnd) :
    readContent fuel (ending.levelIn level) st cs =
      match ending with
      | .opening => readContent fuel (level + 1) st cs
      | .empty | .broken => readContent fuel level st cs := by
  cases ending <;> rfl

theorem contentStep_of_readContent {out : State × List Char}
    (read : readContent (fuel + 1) level st cs = some out) : ContentStep fuel level st cs out := by
  rw [readContent.eq_def] at read
  dsimp only at read
  split at read
  · cases read
    exact .done
  · obtain ⟨rest, skipped, later⟩ := Option.bind_eq_some_iff.1 read
    exact .comment skipped later
  · obtain ⟨inside, opens, read⟩ := Option.bind_eq_some_iff.1 read
    obtain ⟨⟨body, rest⟩, closes, read⟩ := Option.bind_eq_some_iff.1 read
    split at read
    · rename_i legal
      exact .characters opens closes legal read
    · cases read
  · obtain ⟨rest, skipped, later⟩ := Option.bind_eq_some_iff.1 read
    exact .instruction skipped later
  · obtain ⟨⟨name, behind⟩, named, read⟩ := Option.bind_eq_some_iff.1 read
    split at read
    · rename_i rest ends
      obtain ⟨closed, closes, read⟩ := Option.bind_eq_some_iff.1 read
      split at read
      · cases read
        exact .close named ends closes
      · exact .closeInner named ends closes read
    · cases read
  · obtain ⟨⟨name, behind⟩, named, read⟩ := Option.bind_eq_some_iff.1 read
    obtain ⟨⟨raw, ending, rest⟩, listed, read⟩ := Option.bind_eq_some_iff.1 read
    obtain ⟨⟨nesting, attributes⟩, normal, read⟩ := Option.bind_eq_some_iff.1 read
    obtain ⟨next, added, read⟩ := Option.bind_eq_some_iff.1 read
    refine .tag named listed normal added ?_
    rw [readContent_levelIn]
    exact read
  · rename_i nonempty _ _ _ _ plain
    split at read
    · rename_i legal
      obtain ⟨next, words, later⟩ := Option.bind_eq_some_iff.1 read
      refine .text nonempty (fun first => ?_) legal words later
      obtain ⟨more, rfl⟩ := List.head?_eq_some_iff.1 first
      exact plain more rfl
    · cases read

theorem readContent_of_contentStep {out : State × List Char}
    (step : ContentStep fuel level st cs out) : readContent (fuel + 1) level st cs = some out := by
  cases step with
  | done => rfl
  | comment skipped later => simp [readContent, skipped, later]
  | characters opens closes legal later =>
      rename_i cs inside body rest
      have word : "[CDATA[".toList = '[' :: "CDATA[".toList := rfl
      have bracket : cs = '[' :: ("CDATA[".toList ++ inside) := by
        rw [Text.afterWord_eq_some_iff.1 opens, word, List.cons_append]
      rw [readContent.eq_def]
      dsimp only
      split <;> rename_i same
      · cases same
      · cases same; cases bracket
      · cases same
        simp only [Option.bind_eq_bind, opens, closes, legal, Option.bind_some, if_true, later]
      · cases same
      · cases same
      · rename_i other _ _
        cases same
        exact (other _ rfl).elim
      · exact (same _ rfl).elim
  | instruction skipped later => simp [readContent, skipped, later]
  | close named ends closes => simp [readContent, named, ends, closes]
  | closeInner named ends closes later => simp [readContent, named, ends, closes, later]
  | tag named listed normal added later =>
      obtain ⟨c, more, rfl, known⟩ := QualifiedName.exists_of_read named
      have other {d : Char} (no : isNameChar d = false) : c ≠ d := by
        rintro rfl
        exact absurd known (by simp [no])
      have bang : c ≠ '!' := other (by decide)
      have ask : c ≠ '?' := other (by decide)
      have slash : c ≠ '/' := other (by decide)
      rw [readContent.eq_def]
      dsimp only
      split <;> rename_i same
      · cases same
      · cases same; exact absurd rfl bang
      · cases same; exact absurd rfl bang
      · cases same; exact absurd rfl ask
      · cases same; exact absurd rfl slash
      · cases same
        simp only [Option.bind_eq_bind, named, listed, normal, added, Option.bind_some]
        rw [readContent_levelIn] at later
        exact later
      · exact (same _ rfl).elim
  | text nonempty plain legal words later =>
      obtain ⟨c, more, rfl⟩ := List.exists_cons_of_ne_nil nonempty
      have other : c ≠ '<' := by simpa using plain
      rw [readContent.eq_def]
      dsimp only
      split
      · rename_i same
        cases same
      all_goals first
        | (rename_i same; cases same; exact absurd rfl other)
        | simp only [Option.bind_eq_bind, legal, words, if_true, Option.bind_some, later]

theorem readContent_iff {out : State × List Char} :
    readContent (fuel + 1) level st cs = some out ↔ ContentStep fuel level st cs out :=
  ⟨contentStep_of_readContent, readContent_of_contentStep⟩

theorem readText_iff {acc : List Char} {asIs : Bool} {out : State} :
    readText (fuel + 1) st acc asIs cs = some out ↔ TextStep fuel st acc asIs cs out := by
  constructor
  · intro read
    rw [readText.eq_def] at read
    dsimp only at read
    split at read
    · cases read
      exact .done
    · obtain ⟨⟨reference, rest⟩, refers, read⟩ := Option.bind_eq_some_iff.1 read
      split at read
      · rename_i found
        cases found
        split at read
        · rename_i deep
          exact .inner refers deep read
        · rename_i flat
          exact .outer refers flat read
      · rename_i found
        cases found
        obtain ⟨value, declared, read⟩ := Option.bind_eq_some_iff.1 read
        obtain ⟨nesting, entered, read⟩ := Option.bind_eq_some_iff.1 read
        obtain ⟨⟨inside, left⟩, content, later⟩ := Option.bind_eq_some_iff.1 read
        exact .entity refers declared entered content later
    · rename_i plain
      exact .char plain read
  · intro step
    cases step with
    | done => rfl
    | inner refers deep later => simp [readText, refers, deep, later]
    | outer refers flat later => simp [readText, refers, flat, later]
    | entity refers declared entered content later =>
        rw [State.flush] at entered content later
        simp only [readText, refers, declared, Option.bind_eq_bind, Option.bind_some, entered,
          content, later]
    | char plain later =>
        rw [readText.eq_def]
        dsimp only
        split
        · rename_i same; cases same
        · rename_i same
          exact absurd (List.cons.inj same).1 plain
        · rename_i same
          cases same
          exact later

/-! ## Values of attributes -/

/-- What one step of normalizing the value of an attribute does. -/
inductive ValueStep (entities : Entities) (fuel : Nat) :
    Nesting → List Char → List Char → Nesting × List Char → Prop
  | done {nesting : Nesting} {acc : List Char} :
      ValueStep entities fuel nesting acc [] (nesting, acc)
  | outer {nesting : Nesting} {acc cs rest : List Char} {out : Nesting × List Char} {c : Char}
      (refers : readReference cs = some (.char c, rest)) (flat : nesting.depth = 0)
      (later : normalizeValue entities fuel nesting (c :: acc) rest = some out) :
      ValueStep entities fuel nesting acc ('&' :: cs) out
  | inner {nesting : Nesting} {acc cs rest : List Char} {out : Nesting × List Char} {c : Char}
      (refers : readReference cs = some (.char c, rest)) (deep : nesting.depth ≠ 0)
      (other : c ≠ '<')
      (later : normalizeValue entities fuel nesting (attributeChar c :: acc) rest = some out) :
      ValueStep entities fuel nesting acc ('&' :: cs) out
  | entity {nesting inner inside : Nesting} {acc acc' cs rest name value : List Char}
      {out : Nesting × List Char} (refers : readReference cs = some (.entity name, rest))
      (declared : entities.find? name = some value) (entered : nesting.enter = some inner)
      (content : normalizeValue entities fuel inner acc value = some (inside, acc'))
      (later : normalizeValue entities fuel inside.leave acc' rest = some out) :
      ValueStep entities fuel nesting acc ('&' :: cs) out
  | newline {nesting : Nesting} {acc rest : List Char} {out : Nesting × List Char}
      (later : normalizeValue entities fuel nesting acc ('\n' :: rest) = some out) :
      ValueStep entities fuel nesting acc ('\r' :: '\n' :: rest) out
  | char {nesting : Nesting} {acc rest : List Char} {out : Nesting × List Char} {c : Char}
      (plain : c ≠ '&') (apart : c = '\r' → ∀ more, rest ≠ '\n' :: more)
      (later : normalizeValue entities fuel nesting (attributeChar c :: acc) rest = some out) :
      ValueStep entities fuel nesting acc (c :: rest) out

section

variable {entities : Entities} {nesting : Nesting} {acc : List Char}

theorem normalizeValue_cons {c : Char} {rest : List Char} (plain : c ≠ '&')
    (apart : c = '\r' → ∀ more, rest ≠ '\n' :: more) :
    normalizeValue entities (fuel + 1) nesting acc (c :: rest) =
      normalizeValue entities fuel nesting (attributeChar c :: acc) rest := by
  rw [normalizeValue.eq_def]
  dsimp only
  split <;> rename_i same
  · cases same
  · cases same
    exact absurd rfl plain
  · cases same
    exact absurd rfl (apart rfl _)
  · cases same
    rfl

theorem normalizeValue_iff {out : Nesting × List Char} :
    normalizeValue entities (fuel + 1) nesting acc cs = some out ↔
      ValueStep entities fuel nesting acc cs out := by
  constructor
  · intro normal
    rw [normalizeValue.eq_def] at normal
    dsimp only at normal
    split at normal
    · cases normal
      exact .done
    · obtain ⟨⟨reference, rest⟩, refers, normal⟩ := Option.bind_eq_some_iff.1 normal
      split at normal
      · rename_i found
        cases found
        split at normal
        · rename_i flat
          exact .outer refers flat normal
        · rename_i deep
          split at normal
          · cases normal
          · rename_i other
            exact .inner refers deep other normal
      · rename_i found
        cases found
        obtain ⟨value, declared, normal⟩ := Option.bind_eq_some_iff.1 normal
        obtain ⟨inner, entered, normal⟩ := Option.bind_eq_some_iff.1 normal
        obtain ⟨⟨inside, acc'⟩, content, later⟩ := Option.bind_eq_some_iff.1 normal
        exact .entity refers declared entered content later
    · exact .newline normal
    · rename_i plain apart
      exact .char plain (fun same more follows => apart _ same follows) normal
  · intro step
    cases step with
    | done => rfl
    | outer refers flat later => simp [normalizeValue, refers, flat, later]
    | inner refers deep other later => simp [normalizeValue, refers, deep, other, later]
    | entity refers declared entered content later =>
        simp [normalizeValue, refers, declared, entered, content, later]
    | newline later => exact later
    | char plain apart later => rwa [normalizeValue_cons plain apart]

end

/-! ## Sorting attributes out -/

/-- What sorting out one attribute does. -/
inductive SortStep (sorted : SortedAttributes) (a : RawAttribute) : SortedAttributes → Prop
  /-- The declaration that holds anyway. -/
  | xml (declares : a.name.qualifier = "xmlns".toList)
      (named : String.ofList a.name.localName = "xml") (value : a.value = xmlNamespace)
      (fresh : ∀ d ∈ sorted.declarations, d.qualifier ≠ some (String.ofList a.name.localName)) :
      SortStep sorted a sorted
  | qualified (declares : a.name.qualifier = "xmlns".toList)
      (named : String.ofList a.name.localName ≠ "xml")
      (allowed : a.value ≠ xmlNamespace ∧ a.value ≠ xmlnsNamespace)
      (fresh : ∀ d ∈ sorted.declarations, d.qualifier ≠ some (String.ofList a.name.localName)) :
      SortStep sorted a { sorted with
        declarations := sorted.declarations ++ [⟨some (String.ofList a.name.localName), a.value⟩] }
  | default (declares : a.name.qualifier ≠ "xmlns".toList)
      (named : a.name.localName = "xmlns".toList)
      (allowed : a.value ≠ xmlNamespace ∧ a.value ≠ xmlnsNamespace) :
      SortStep sorted a { sorted with declarations := sorted.declarations ++ [⟨none, a.value⟩] }
  | plain (declares : a.name.qualifier ≠ "xmlns".toList)
      (named : a.name.localName ≠ "xmlns".toList) :
      SortStep sorted a { sorted with attributes := sorted.attributes ++ [a] }

theorem SortedAttributes.add_iff {sorted out : SortedAttributes} {a : RawAttribute} :
    sorted.add a = some out ↔ SortStep sorted a out := by
  have whole : String.ofList a.name.localName = "xmlns" ↔ a.name.localName = "xmlns".toList :=
    ⟨fun same => by rw [← same, String.toList_ofList], fun same => by rw [same, String.ofList_toList]⟩
  constructor
  · intro sorts
    rw [SortedAttributes.add] at sorts
    dsimp only at sorts
    split at sorts
    · rename_i declares
      split at sorts
      · cases sorts
      rename_i notXmlns
      split at sorts
      · cases sorts
      rename_i bound
      split at sorts
      · cases sorts
      rename_i single
      have fresh : ∀ d ∈ sorted.declarations,
          d.qualifier ≠ some (String.ofList a.name.localName) := by
        simpa using single
      split at sorts
      · rename_i named
        cases sorts
        exact .xml declares named (by simpa [named] using bound) fresh
      · rename_i named
        cases sorts
        exact .qualified declares named ⟨by simpa [named] using bound, notXmlns⟩ fresh
    · rename_i declares
      split at sorts
      · rename_i named
        split at sorts
        · cases sorts
        · rename_i allowed
          cases sorts
          exact .default declares (whole.1 named) (not_or.1 allowed)
      · rename_i named
        cases sorts
        exact .plain declares (mt whole.2 named)
  · intro step
    rw [SortedAttributes.add]
    dsimp only
    cases step with
    | xml declares named value fresh =>
        have apart : xmlNamespace ≠ xmlnsNamespace := by decide
        have single : ¬ (sorted.declarations.any fun d =>
            d.qualifier == some (String.ofList a.name.localName)) = true := by simpa using fresh
        rw [if_pos declares, if_neg (by rwa [value]), if_neg (by simp [named, value]),
          if_neg single, if_pos named]
    | qualified declares named allowed fresh =>
        have single : ¬ (sorted.declarations.any fun d =>
            d.qualifier == some (String.ofList a.name.localName)) = true := by simpa using fresh
        rw [if_pos declares, if_neg allowed.2, if_neg (by simp [named, allowed.1]),
          if_neg single, if_neg named]
    | default declares named allowed =>
        rw [if_neg declares, if_pos (whole.2 named), if_neg (not_or.2 allowed)]
    | plain declares named => rw [if_neg declares, if_neg (mt whole.1 named)]

/-! ## Tags -/

/-- What a start tag does to the state. -/
inductive StartTagStep (st : State) (name : QualifiedName) (attributes : List RawAttribute) :
    TagEnd → State → Prop
  | broken {sorted : SortedAttributes} (declares : name.qualifier ≠ "xmlns".toList)
      (sorts : st.pending.addAll attributes = some sorted) :
      StartTagStep st name attributes .broken { st with joins := false, pending := sorted }
  | empty {sorted : SortedAttributes} {e : OpenElement}
      (declares : name.qualifier ≠ "xmlns".toList)
      (sorts : st.pending.addAll attributes = some sorted)
      (resolves : st.resolve name sorted = some e) :
      StartTagStep st name attributes .empty (st.addEmpty e)
  | opening {sorted : SortedAttributes} {e : OpenElement}
      (declares : name.qualifier ≠ "xmlns".toList)
      (sorts : st.pending.addAll attributes = some sorted)
      (resolves : st.resolve name sorted = some e) :
      StartTagStep st name attributes .opening (st.openElement e)

/-- What an end tag does to the state. -/
inductive EndTagStep (st : State) (name : QualifiedName) : State → Prop
  | mk {e : OpenElement} {outer : List OpenElement} {waiting : List (String × String)}
      (opened : st.stack = e :: outer)
      (resolves : resolveAttributes (Scope.extend st.pending.declarations e.scope)
        st.pending.attributes = some waiting)
      (named : st.started ∧ e.name = name) :
      EndTagStep st name ({ st with stack := outer, pending := .none }.add
        (.element e.tag e.attributes e.children.reverse))

namespace State

variable {name : QualifiedName} {next : State}

theorem addStartTag_iff {attributes : List RawAttribute} {ending : TagEnd} :
    st.addStartTag name attributes ending = some next ↔
      StartTagStep st name attributes ending next := by
  constructor
  · intro added
    rw [addStartTag] at added
    split at added
    · cases added
    · rename_i declares
      obtain ⟨sorted, sorts, added⟩ := Option.bind_eq_some_iff.1 added
      cases ending with
      | broken =>
          cases added
          exact .broken declares sorts
      | empty =>
          obtain ⟨e, resolves, added⟩ := Option.bind_eq_some_iff.1 added
          cases added
          exact .empty declares sorts resolves
      | opening =>
          obtain ⟨e, resolves, added⟩ := Option.bind_eq_some_iff.1 added
          cases added
          exact .opening declares sorts resolves
  · intro step
    cases step with
    | broken declares sorts =>
        rw [addStartTag, if_neg declares, sorts]
        rfl
    | empty declares sorts resolves =>
        rw [addStartTag, if_neg declares, sorts, Option.bind_eq_bind, Option.bind_some, resolves]
        rfl
    | opening declares sorts resolves =>
        rw [addStartTag, if_neg declares, sorts, Option.bind_eq_bind, Option.bind_some, resolves]
        rfl

theorem closeElement_iff : st.closeElement name = some next ↔ EndTagStep st name next := by
  constructor
  · intro closes
    rw [closeElement] at closes
    split at closes
    · cases closes
    · rename_i opened
      obtain ⟨waiting, resolves, closes⟩ := Option.bind_eq_some_iff.1 closes
      split at closes
      · rename_i named
        cases closes
        exact .mk opened resolves named
      · cases closes
  · rintro ⟨opened, resolves, named⟩
    rw [closeElement, opened]
    dsimp only
    rw [resolves, Option.bind_eq_bind, Option.bind_some, if_pos named]
    rfl

end State

/-! ## More fuel -/

theorem normalizeValue_succ {entities : Entities} {nesting : Nesting} {acc : List Char}
    {out : Nesting × List Char} (normal : normalizeValue entities fuel nesting acc cs = some out) :
    normalizeValue entities (fuel + 1) nesting acc cs = some out := by
  induction fuel generalizing nesting acc cs out with
  | zero => cases normal
  | succ fuel ih =>
      refine normalizeValue_iff.2 ?_
      cases normalizeValue_iff.1 normal with
      | done => exact .done
      | outer refers flat later => exact .outer refers flat (ih later)
      | inner refers deep other later => exact .inner refers deep other (ih later)
      | entity refers declared entered content later =>
          exact .entity refers declared entered (ih content) (ih later)
      | newline later => exact .newline (ih later)
      | char plain apart later => exact .char plain apart (ih later)

theorem normalizeAttributes_succ {entities : Entities} {nesting : Nesting}
    {raw : List (QualifiedName × List Char)} {out : Nesting × List RawAttribute}
    (normal : normalizeAttributes entities fuel nesting raw = some out) :
    normalizeAttributes entities (fuel + 1) nesting raw = some out := by
  induction raw generalizing nesting out with
  | nil => exact normal
  | cons a others ih =>
      obtain ⟨⟨inner, acc⟩, first, normal⟩ := Option.bind_eq_some_iff.1 normal
      obtain ⟨⟨last, more⟩, later, normal⟩ := Option.bind_eq_some_iff.1 normal
      rw [normalizeAttributes, normalizeValue_succ first, Option.bind_eq_bind, Option.bind_some]
      dsimp only
      rw [ih later]
      exact normal

/-- One more unit of fuel changes nothing that is read. -/
theorem read_succ (fuel : Nat) :
    (∀ level st cs out, readContent fuel level st cs = some out →
      readContent (fuel + 1) level st cs = some out) ∧
    ∀ st acc asIs cs out, readText fuel st acc asIs cs = some out →
      readText (fuel + 1) st acc asIs cs = some out := by
  induction fuel with
  | zero => exact ⟨nofun, nofun⟩
  | succ fuel ih =>
      obtain ⟨content, text⟩ := ih
      constructor
      · intro level st cs out read
        refine readContent_iff.2 ?_
        cases readContent_iff.1 read with
        | done => exact .done
        | comment skipped later => exact .comment skipped (content _ _ _ _ later)
        | characters opens closes legal later => exact .characters opens closes legal (content _ _ _ _ later)
        | instruction skipped later => exact .instruction skipped (content _ _ _ _ later)
        | close named ends closes => exact .close named ends closes
        | closeInner named ends closes later => exact .closeInner named ends closes (content _ _ _ _ later)
        | tag named listed normal added later =>
            exact .tag named listed (normalizeAttributes_succ normal) added (content _ _ _ _ later)
        | text nonempty plain legal words later =>
            exact .text nonempty plain legal (text _ _ _ _ _ words) (content _ _ _ _ later)
      · intro st acc asIs cs out read
        refine readText_iff.2 ?_
        cases readText_iff.1 read with
        | done => exact .done
        | inner refers deep later => exact .inner refers deep (text _ _ _ _ _ later)
        | outer refers flat later => exact .outer refers flat (text _ _ _ _ _ later)
        | entity refers declared entered inside later =>
            exact .entity refers declared entered (content _ _ _ _ inside) (text _ _ _ _ _ later)
        | char plain later => exact .char plain (text _ _ _ _ _ later)

theorem readContent_mono {more : Nat} (enough : fuel ≤ more) {out : State × List Char}
    (read : readContent fuel level st cs = some out) :
    readContent more level st cs = some out := by
  induction enough with
  | refl => exact read
  | step _ ih => exact (read_succ _).1 _ _ _ _ ih

theorem normalizeAttributes_mono {more : Nat} (enough : fuel ≤ more) {entities : Entities}
    {nesting : Nesting} {raw : List (QualifiedName × List Char)} {out : Nesting × List RawAttribute}
    (normal : normalizeAttributes entities fuel nesting raw = some out) :
    normalizeAttributes entities more nesting raw = some out := by
  induction enough with
  | refl => exact normal
  | step _ ih => exact normalizeAttributes_succ ih

/-! ## Documents -/

/-- Reading the outermost element, the last state and what follows it being known. -/
inductive RootRead (fuel : Nat) (entities : Entities) : List Char → State → List Char → Prop
  | mk {cs behind inside rest : List Char} {name : QualifiedName}
      {raw : List (QualifiedName × List Char)} {ending : TagEnd} {nesting : Nesting}
      {attributes : List RawAttribute} {opened last : State}
      (named : QualifiedName.read cs = some (name, behind))
      (listed : readAttributes behind.length.succ behind = some (raw, ending, inside))
      (normal : normalizeAttributes entities fuel .none raw = some (nesting, attributes))
      (added : { State.start with entities, nesting }.addStartTag name attributes ending =
        some opened)
      (content : (match ending with
        | .opening => readContent fuel 0 opened inside
        | .empty | .broken => some (opened, inside)) = some (last, rest)) :
      RootRead fuel entities ('<' :: cs) last rest

/-- The tree of the outermost element, when nothing is open any more. -/
def State.finish? (last : State) (rest : List Char) : Option (Tree × List Char) :=
  match last.stack, last.root with
  | [], some t => some (t, rest)
  | _, _ => none

theorem State.finish?_eq_some_iff {last : State} {rest : List Char} {out : Tree × List Char} :
    last.finish? rest = some out ↔ last.stack = [] ∧ last.root = some out.1 ∧ rest = out.2 := by
  rw [finish?]
  split
  · rename_i closed root
    simp [closed, root, Prod.ext_iff]
  · rename_i other
    exact iff_of_false nofun fun done => other _ done.1 done.2.1

theorem readRoot_iff {entities : Entities} {t : Tree} {rest : List Char} :
    readRoot fuel entities cs = some (t, rest) ↔
      ∃ last, RootRead fuel entities cs last rest ∧ last.stack = [] ∧ last.root = some t := by
  constructor
  · intro read
    rw [readRoot.eq_def] at read
    split at read
    · obtain ⟨⟨name, behind⟩, named, read⟩ := Option.bind_eq_some_iff.1 read
      obtain ⟨⟨raw, ending, inside⟩, listed, read⟩ := Option.bind_eq_some_iff.1 read
      obtain ⟨⟨nesting, attributes⟩, normal, read⟩ := Option.bind_eq_some_iff.1 read
      obtain ⟨opened, added, read⟩ := Option.bind_eq_some_iff.1 read
      have content : ∃ last left, (match ending with
          | .opening => readContent fuel 0 opened inside
          | .empty | .broken => some (opened, inside)) = some (last, left) ∧
          last.finish? left = some (t, rest) := by
        cases ending with
        | opening =>
            obtain ⟨⟨last, left⟩, content, read⟩ := Option.bind_eq_some_iff.1 read
            exact ⟨last, left, content, read⟩
        | empty => exact ⟨opened, inside, rfl, read⟩
        | broken => exact ⟨opened, inside, rfl, read⟩
      obtain ⟨last, left, content, finished⟩ := content
      obtain ⟨closed, root, rfl⟩ := State.finish?_eq_some_iff.1 finished
      exact ⟨last, .mk named listed normal added content, closed, root⟩
    · cases read
  · rintro ⟨last, ⟨named, listed, normal, added, content⟩, closed, root⟩
    have normal' : normalizeAttributes entities fuel State.start.nesting _ = some _ := normal
    have finished : last.finish? rest = some (t, rest) :=
      State.finish?_eq_some_iff.2 ⟨closed, root, rfl⟩
    simp only [readRoot, named, listed, normal', added, Option.bind_eq_bind, Option.bind_some]
    split at content
    · rw [content]
      exact finished
    · cases content
      exact finished
    · cases content
      exact finished

/-- A text without the mark of its byte order. -/
def unmarked : List Char → List Char
  | [] => []
  | c :: rest => if c.toNat = 0xFEFF then rest else c :: rest

theorem read_eq (cs : List Char) :
    Tree.read cs = (readProlog (unmarked cs)).bind fun prolog =>
      (readRoot (12 * ((unmarked cs).length + 2)) prolog.1 prolog.2).bind fun root =>
        (skipMisc (root.2.length + 1) root.2).bind fun rest =>
          if rest.isEmpty then some root.1 else none := by
  cases cs <;> rfl

theorem read_iff {t : Tree} :
    Tree.read cs = some t ↔ ∃ entities root rest,
      readProlog (unmarked cs) = some (entities, root) ∧
      readRoot (12 * ((unmarked cs).length + 2)) entities root = some (t, rest) ∧
      skipMisc (rest.length + 1) rest = some [] := by
  rw [read_eq]
  constructor
  · intro read
    obtain ⟨⟨entities, root⟩, prolog, read⟩ := Option.bind_eq_some_iff.1 read
    obtain ⟨⟨t', rest⟩, element, read⟩ := Option.bind_eq_some_iff.1 read
    obtain ⟨left, misc, read⟩ := Option.bind_eq_some_iff.1 read
    split at read
    · rename_i nothing
      cases read
      rw [List.isEmpty_iff.1 nothing] at misc
      exact ⟨entities, root, rest, prolog, element, misc⟩
    · cases read
  · rintro ⟨entities, root, rest, prolog, element, misc⟩
    simp only [prolog, element, misc, Option.bind_some]
    rfl

end Infographic.Markup
