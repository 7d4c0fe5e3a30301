/-
# Infographic.Proofs.PrologReading -- what stands before the root element

What is read before the root element does not depend on what the text holds from its tag on
(`readProlog_beside`).  A reader keeps to its part of a text if it reads the same when another
tag stands at the end, as long as it stops before that.  The small readers of words, names and
quoted literals do, and so do the readers that are put together from them.
-/
import Infographic.Proofs.ReaderSteps
import Infographic.Proofs.TextPieces
import Mathlib.Data.List.TakeWhile

namespace Infographic.Markup

set_option autoImplicit false

open Infographic.Text (afterWord cutAt afterWord_eq_some_iff append_of_cutAt)

/-! ## Readers that keep to their part -/

/-- A text that begins with a start tag. -/
def StartsTag (cs : List Char) : Prop :=
  ∃ c more, cs = '<' :: c :: more ∧ isNameChar c = true

/-- What is read is the same when `other` stands at the end in place of `tail`. -/
def KeepsTo (tail other : List Char) {α : Type} (reads : List Char → α → List Char → Prop) : Prop :=
  ∀ cs a rest, reads cs a rest → ∃ used, cs = used ++ rest ∧
    ∀ inside, rest = inside ++ tail → reads (used ++ (inside ++ other)) a (inside ++ other)

/-- One reader behind another. -/
def Then {α β : Type} (first : List Char → α → List Char → Prop)
    (second : α → List Char → β → List Char → Prop) (cs : List Char) (b : β)
    (rest : List Char) : Prop :=
  ∃ a mid, first cs a mid ∧ second a mid b rest

/-- A reader of a value. -/
def reading {α : Type} (f : List Char → Option (α × List Char)) (cs : List Char) (a : α)
    (rest : List Char) : Prop :=
  f cs = some (a, rest)

/-- A reader that only goes on. -/
def skipping (f : List Char → Option (List Char)) (cs : List Char) (_ : Unit)
    (rest : List Char) : Prop :=
  f cs = some rest

/-- The characters at the start of a text that satisfy `p`. -/
def readingWhile (p : Char → Bool) (cs run rest : List Char) : Prop :=
  cs.takeWhile p = run ∧ cs.dropWhile p = rest

/-- Nothing is read, but there is a condition on what follows. -/
def looking (p : List Char → Prop) (cs : List Char) (_ : Unit) (rest : List Char) : Prop :=
  p cs ∧ cs = rest

/-- Nothing is read, and there is one value. -/
def giving {α : Type} (p : α → Prop) (cs : List Char) (a : α) (rest : List Char) : Prop :=
  p a ∧ cs = rest

/-- A word without a start tag in it: behind every `<` stands a character of no name. -/
def isForeign : List Char → Bool
  | [] => true
  | c :: rest => (c != '<' || rest.head?.any fun d => !isNameChar d) && isForeign rest

section

variable {α β : Type} {tail other : List Char} {first : List Char → α → List Char → Prop}
  {second : α → List Char → β → List Char → Prop}

namespace KeepsTo

theorem congr {reads : List Char → α → List Char → Prop} (keeps : KeepsTo tail other first)
    (same : ∀ cs a rest, reads cs a rest ↔ first cs a rest) : KeepsTo tail other reads := by
  intro cs a rest read
  obtain ⟨used, whole, elsewhere⟩ := keeps cs a rest ((same cs a rest).1 read)
  exact ⟨used, whole, fun inside ends => (same _ _ _).2 (elsewhere inside ends)⟩

theorem andThen (keeps : KeepsTo tail other first) (later : ∀ a, KeepsTo tail other (second a)) :
    KeepsTo tail other (Then first second) := by
  rintro cs b rest ⟨a, mid, read, read'⟩
  obtain ⟨used, rfl, elsewhere⟩ := keeps cs a mid read
  obtain ⟨used', rfl, elsewhere'⟩ := later a mid b rest read'
  refine ⟨used ++ used', by rw [List.append_assoc], fun inside ends => ?_⟩
  subst ends
  rw [List.append_assoc]
  refine ⟨a, used' ++ (inside ++ other), ?_, elsewhere' inside rfl⟩
  have same := elsewhere (used' ++ inside) (by rw [List.append_assoc])
  rwa [List.append_assoc] at same

theorem or {reads : List Char → α → List Char → Prop} (keeps : KeepsTo tail other first)
    (keeps' : KeepsTo tail other reads) :
    KeepsTo tail other fun cs a rest => first cs a rest ∨ reads cs a rest := by
  rintro cs a rest (read | read)
  · obtain ⟨used, whole, elsewhere⟩ := keeps cs a rest read
    exact ⟨used, whole, fun inside ends => .inl (elsewhere inside ends)⟩
  · obtain ⟨used, whole, elsewhere⟩ := keeps' cs a rest read
    exact ⟨used, whole, fun inside ends => .inr (elsewhere inside ends)⟩

theorem giving (p : α → Prop) : KeepsTo tail other (Markup.giving p) := by
  rintro cs a rest ⟨holds, rfl⟩
  exact ⟨[], rfl, fun inside _ => ⟨holds, rfl⟩⟩

/-- A reader that does not look behind what it reads. -/
theorem of_exact {reads : List Char → α → List Char → Prop}
    (alone : ∀ cs a rest, reads cs a rest → ∃ used, cs = used ++ rest ∧
      ∀ more, reads (used ++ more) a more) : KeepsTo tail other reads := by
  intro cs a rest read
  obtain ⟨used, whole, elsewhere⟩ := alone cs a rest read
  exact ⟨used, whole, fun inside _ => elsewhere _⟩

theorem word (w : List Char) : KeepsTo tail other (skipping (afterWord w)) :=
  of_exact fun _ _ _ read => ⟨w, afterWord_eq_some_iff.1 read, fun _ =>
    afterWord_eq_some_iff.2 rfl⟩

/-- A character that satisfies `p`. -/
theorem char (p : Char → Prop) :
    KeepsTo tail other fun cs (c : Char) rest => cs = c :: rest ∧ p c :=
  of_exact fun _ c _ read => ⟨[c], read.1, fun _ => ⟨rfl, read.2⟩⟩

end KeepsTo

/-! ## Small readers -/

theorem readQuoted_eq_some_iff {quote : Char} {cs value rest : List Char} :
    readQuoted quote cs = some (value, rest) ↔ cs = value ++ quote :: rest ∧ quote ∉ value := by
  rw [readQuoted]
  constructor
  · intro read
    split at read
    · cases read
    · rename_i c rest found
      cases read
      refine ⟨?_, fun member => ?_⟩
      · have mark : c = quote := by
          have kept := List.head?_dropWhile_not (· != quote) cs
          rw [found] at kept
          simpa using kept
        rw [← mark, ← found, mark, List.takeWhile_append_dropWhile]
      · simpa using List.mem_takeWhile_imp member
  · rintro ⟨rfl, free⟩
    have plain : ∀ c ∈ value, (c != quote) = true := fun c member => by
      simpa using fun same : c = quote => free (same ▸ member)
    rw [List.dropWhile_append_of_pos plain, List.takeWhile_append_of_pos plain]
    simp

theorem KeepsTo.quoted (quote : Char) : KeepsTo tail other (reading (readQuoted quote)) := by
  refine .of_exact fun cs value rest read => ?_
  obtain ⟨whole, free⟩ := readQuoted_eq_some_iff.1 read
  exact ⟨value ++ [quote], by simpa using whole, fun more =>
    readQuoted_eq_some_iff.2 ⟨by simp, free⟩⟩

/-- The first place of a word does not depend on what follows it. -/
theorem cutAt_append {word cs body rest : List Char} (found : cutAt word cs = some (body, rest))
    (more : List Char) : cutAt word (body ++ (word ++ more)) = some (body, more) := by
  induction cs generalizing body with
  | nil =>
      rw [cutAt] at found
      split at found
      · rename_i nothing
        cases found
        rw [List.isEmpty_iff.1 nothing]
        cases more with
        | nil => rfl
        | cons c more => simp [cutAt, afterWord]
      · cases found
  | cons c cs ih =>
      rw [cutAt] at found
      split at found
      · cases found
        have here : afterWord word (word ++ more) = some more := afterWord_eq_some_iff.2 rfl
        rw [List.nil_append]
        cases whole : word ++ more with
        | nil =>
            obtain ⟨rfl, rfl⟩ := List.append_eq_nil_iff.1 whole
            rfl
        | cons d ds =>
            rw [whole] at here
            rw [cutAt, here]
      · rename_i apart
        obtain ⟨⟨body', rest'⟩, later, same⟩ := Option.map_eq_some_iff.1 found
        cases same
        have again := ih later
        have away : afterWord word (c :: (body' ++ (word ++ more))) = none := by
          rw [Option.eq_none_iff_forall_ne_some] at apart ⊢
          intro after begins
          -- The word would begin in the text before its place, and end there, too.
          have whole := afterWord_eq_some_iff.1 begins
          have front : word <+: c :: (body' ++ word) := by
            have first : word <+: c :: (body' ++ (word ++ more)) := ⟨after, whole.symm⟩
            refine List.prefix_of_prefix_length_le first ⟨more, by simp⟩ ?_
            simp only [List.length_cons, List.length_append]
            omega
          obtain ⟨left, front⟩ := front
          refine apart (left ++ rest') (afterWord_eq_some_iff.2 ?_)
          rw [append_of_cutAt later, ← List.append_assoc word, front]
          simp
        rw [List.cons_append, cutAt, away, again]
        rfl

theorem KeepsTo.cut (w : List Char) : KeepsTo tail other (reading (cutAt w)) :=
  .of_exact fun cs body rest found => ⟨body ++ w, by
    rw [append_of_cutAt found, List.append_assoc], fun more => by
      rw [List.append_assoc]
      exact cutAt_append found more⟩

variable (starts : StartsTag tail) (starts' : StartsTag other)

include starts starts'

theorem KeepsTo.while {p : Char → Bool} (stop : p '<' = false) :
    KeepsTo tail other (readingWhile p) := by
  rintro cs run rest ⟨rfl, rfl⟩
  refine ⟨cs.takeWhile p, List.takeWhile_append_dropWhile.symm, fun inside ends => ?_⟩
  obtain ⟨c, more, rfl, -⟩ := starts
  obtain ⟨c', more', rfl, -⟩ := starts'
  have run : ∀ d ∈ cs.takeWhile p, p d = true := fun d => List.mem_takeWhile_imp
  have first : ∀ d ∈ (inside ++ '<' :: c' :: more').head?, p d = false := by
    have kept : ∀ d ∈ (cs.dropWhile p).head?, p d = false := Text.not_of_head?_dropWhile
    rw [ends] at kept
    cases inside with
    | nil => simpa using stop
    | cons d inside => simpa using kept
  rw [readingWhile, List.takeWhile_append_of_pos run, List.dropWhile_append_of_pos run,
    Text.takeWhile_of_head? first, Text.dropWhile_of_head? first, List.append_nil]
  exact ⟨rfl, rfl⟩

omit starts' in
/-- Whether a word follows is known before the tag begins. -/
theorem afterWord_isSome {w : List Char} (foreign : isForeign w = true) (inside : List Char) :
    (afterWord w (inside ++ tail)).isSome = (afterWord w inside).isSome := by
  induction w generalizing inside with
  | nil => rfl
  | cons x w ih =>
      rw [isForeign, Bool.and_eq_true, Bool.or_eq_true] at foreign
      cases inside with
      | nil =>
          obtain ⟨c, more, rfl, known⟩ := starts
          rw [List.nil_append, afterWord, afterWord]
          split
          · rename_i opens
            subst opens
            cases w with
            | nil => simp at foreign
            | cons y w =>
                have other : y ≠ c := by
                  rintro rfl
                  simp [known] at foreign
                rw [afterWord, if_neg other]
          · rfl
      | cons d inside =>
          rw [List.cons_append, afterWord, afterWord]
          split
          · exact ih foreign.2 inside
          · rfl

omit starts starts' in
theorem KeepsTo.looking {p : List Char → Prop}
    (same : ∀ inside, p (inside ++ tail) → p (inside ++ other)) :
    KeepsTo tail other (Markup.looking p) := by
  rintro cs a rest ⟨holds, rfl⟩
  exact ⟨[], rfl, fun inside ends => ⟨same inside (ends ▸ holds), rfl⟩⟩

theorem afterWord_beside {w : List Char} (foreign : isForeign w = true) (inside : List Char) :
    (afterWord w (inside ++ other)).isSome = (afterWord w (inside ++ tail)).isSome := by
  rw [afterWord_isSome starts' foreign, afterWord_isSome starts foreign]

theorem KeepsTo.test {w : List Char} (foreign : isForeign w = true) (answer : Bool) :
    KeepsTo tail other (Markup.looking fun cs => (afterWord w cs).isSome = answer) :=
  .looking fun inside holds => by rw [afterWord_beside starts starts' foreign, holds]

theorem KeepsTo.neither {v w : List Char} (foreign : isForeign v = true)
    (foreign' : isForeign w = true) : KeepsTo tail other (Markup.looking fun cs =>
      (afterWord v cs).isSome = false ∧ (afterWord w cs).isSome = false) :=
  .looking fun inside holds => by
    rwa [afterWord_beside starts starts' foreign, afterWord_beside starts starts' foreign']

theorem KeepsTo.head (p : Char → Bool) (answer : Bool) :
    KeepsTo tail other (Markup.looking fun cs => cs.head?.any p = answer) :=
  .looking fun inside holds => by
    obtain ⟨c, more, rfl, -⟩ := starts
    obtain ⟨c', more', rfl, -⟩ := starts'
    cases inside <;> exact holds

theorem keepsTo_skipSpaces :
    KeepsTo tail other (skipping fun cs => some (skipSpaces cs)) :=
  ((KeepsTo.while starts starts' (p := isSpace) (by decide)).andThen fun _ =>
    .giving (fun _ : Unit => True)).congr fun cs _ rest => by
      simp [skipping, Then, readingWhile, giving, skipSpaces]

theorem keepsTo_needSpaces : KeepsTo tail other (skipping needSpaces) :=
  ((KeepsTo.char (isSpace · = true)).andThen fun _ =>
    keepsTo_skipSpaces starts starts').congr fun cs _ rest => by
      cases cs <;> simp [skipping, Then, needSpaces, and_assoc]

theorem keepsTo_readName : KeepsTo tail other (reading readName) :=
  ((KeepsTo.char (isNameStart · = true)).andThen fun c =>
    (KeepsTo.while starts starts' (p := isNameChar) (by decide)).andThen fun run =>
      .giving (c :: run = ·)).congr fun cs name rest => by
        cases cs <;> simp [reading, Then, readName, readingWhile, giving, and_assoc]

theorem keepsTo_qualifiedName : KeepsTo tail other (reading QualifiedName.read) :=
  ((KeepsTo.while starts starts' (p := isNameChar) (by decide)).andThen fun run =>
    .giving fun q => QualifiedName.ofRun run = some q).congr fun cs q rest => by
      simp [reading, Then, QualifiedName.read, readingWhile, giving, and_assoc, and_comm]

omit starts starts' in
theorem keepsTo_readQuote : KeepsTo tail other (reading readQuote) :=
  (KeepsTo.char fun c => c = '"' ∨ c = '\'').congr fun cs c rest => by
    cases cs with
    | nil => simp [reading, readQuote]
    | cons d cs =>
        simp [reading, readQuote, and_assoc, and_comm]
        rintro rfl -
        rfl

/-! ## Comments and instructions -/

omit starts starts' in
theorem keepsTo_skipComment : KeepsTo tail other (skipping skipComment) :=
  ((KeepsTo.cut "-->".toList).andThen fun body => .giving fun _ : Unit =>
    (body.all isXmlChar && (cutAt "--".toList body).isNone && body.getLast? != some '-') =
      true).congr fun cs _ rest => by
        rw [skipping, skipComment, Option.bind_eq_bind, Option.bind_eq_some_iff]
        simp only [Then, reading, giving, Prod.exists]
        refine exists_congr fun body => exists_congr fun mid => and_congr_right fun _ => ?_
        split <;> simp_all

theorem keepsTo_skipInstruction : KeepsTo tail other (skipping skipInstruction) :=
  ((KeepsTo.test starts starts' (w := "xml ".toList) (by decide) false).andThen fun _ =>
    (keepsTo_readName starts starts').andThen fun _ =>
      (keepsTo_skipSpaces starts starts').andThen fun _ =>
        (KeepsTo.cut "?>".toList).andThen fun body => .giving fun _ : Unit =>
          body.all isXmlChar = true).congr fun cs _ rest => by
            rw [skipping, skipInstruction]
            simp only [Then, reading, skipping, looking, giving]
            split <;> simp_all [Option.bind_eq_some_iff]

omit starts starts' in
/-- What one step between the parts of a document does. -/
theorem skipMisc_iff {fuel : Nat} {cs out : List Char} :
    skipMisc (fuel + 1) cs = some out ↔
      (∃ inside rest, afterWord "<!--".toList (skipSpaces cs) = some inside ∧
        skipComment inside = some rest ∧ skipMisc fuel rest = some out) ∨
      (∃ inside rest, afterWord "<?".toList (skipSpaces cs) = some inside ∧
        skipInstruction inside = some rest ∧ skipMisc fuel rest = some out) ∨
      (afterWord "<!--".toList (skipSpaces cs)).isSome = false ∧
        (afterWord "<?".toList (skipSpaces cs)).isSome = false ∧ skipSpaces cs = out := by
  have comment : "<!--".toList = ['<', '!', '-', '-'] := rfl
  have ask : "<?".toList = ['<', '?'] := rfl
  rw [skipMisc.eq_def, comment, ask]
  dsimp only
  generalize skipSpaces cs = spaced
  split
  · simp [afterWord, Option.bind_eq_some_iff]
  · simp [afterWord, Option.bind_eq_some_iff]
  · rename_i noComment noAsk
    have first : afterWord ['<', '!', '-', '-'] spaced = none :=
      Option.eq_none_iff_forall_ne_some.2 fun rest begins =>
        noComment rest (afterWord_eq_some_iff.1 begins)
    have second : afterWord ['<', '?'] spaced = none :=
      Option.eq_none_iff_forall_ne_some.2 fun rest begins =>
        noAsk rest (afterWord_eq_some_iff.1 begins)
    simp [first, second]

theorem keepsTo_skipMisc (fuel : Nat) : KeepsTo tail other (skipping (skipMisc fuel)) := by
  induction fuel with
  | zero => exact fun _ _ _ read => by cases read
  | succ fuel ih =>
      have spaces := keepsTo_skipSpaces starts starts'
      have comment := spaces.andThen fun _ => (KeepsTo.word "<!--".toList).andThen fun _ =>
        keepsTo_skipComment.andThen fun _ => ih
      have instruction := spaces.andThen fun _ => (KeepsTo.word "<?".toList).andThen fun _ =>
        (keepsTo_skipInstruction starts starts').andThen fun _ => ih
      have neither := spaces.andThen fun _ =>
        KeepsTo.neither starts starts' (v := "<!--".toList) (w := "<?".toList) (by decide) (by decide)
      refine (comment.or (instruction.or neither)).congr fun cs _ rest => ?_
      rw [skipping, skipMisc_iff]
      simp [Then, skipping, looking, and_assoc]

/-! ## The XML declaration -/

theorem keepsTo_skipPseudo : KeepsTo tail other (skipping skipPseudo) := by
  have spaces := keepsTo_skipSpaces starts starts'
  refine ((keepsTo_qualifiedName starts starts').andThen fun _ => spaces.andThen fun _ =>
    (KeepsTo.word ['=']).andThen fun _ => spaces.andThen fun _ => keepsTo_readQuote.andThen fun quote =>
      (KeepsTo.quoted quote).andThen fun value => .giving fun _ : Unit =>
        value.all (fun c => isXmlChar c && c != '<') = true).congr fun cs _ rest => ?_
  rw [skipping, skipPseudo, Option.bind_eq_bind, Option.bind_eq_some_iff]
  simp only [Then, reading, skipping, giving, Prod.exists]
  refine exists_congr fun name => exists_congr fun behind => and_congr_right fun _ => ?_
  cases skipSpaces behind with
  | nil => simp [afterWord]
  | cons c more =>
      by_cases mark : c = '='
      · subst mark
        simp [afterWord, Option.bind_eq_some_iff]
      · have other : ¬ '=' = c := fun same => mark same.symm
        simp [afterWord, mark, other]

theorem keepsTo_pseudoSpaces : KeepsTo tail other (skipping pseudoSpaces) := by
  have spaces := keepsTo_skipSpaces starts starts'
  refine ((keepsTo_needSpaces starts starts').or
    ((KeepsTo.test starts starts' (w := "?>".toList) (by decide) true).andThen fun _ =>
      spaces)).congr fun cs _ rest => ?_
  rw [skipping, pseudoSpaces]
  simp only [Then, skipping, looking]
  cases cs with
  | nil => simp [needSpaces, afterWord]
  | cons c more =>
      by_cases space : isSpace c = true
      · simp [needSpaces, skipSpaces, space]
      · have unspaced : needSpaces (c :: more) = none := by simp [needSpaces, space]
        rw [unspaced, Option.isSome_none, Bool.false_or, Option.ite_none_right_eq_some]
        constructor
        · rintro ⟨mark, same⟩
          exact .inr ⟨(), _, ⟨mark, rfl⟩, same⟩
        · rintro (nothing | ⟨-, _, ⟨mark, rfl⟩, same⟩)
          · cases nothing
          · exact ⟨mark, same⟩

omit starts starts' in
theorem KeepsTo.bind {f g : List Char → Option (List Char)} (keeps : KeepsTo tail other (skipping f))
    (later : KeepsTo tail other (skipping g)) :
    KeepsTo tail other (skipping fun cs => (f cs).bind g) :=
  (keeps.andThen fun _ => later).congr fun cs _ rest => by
    simp [skipping, Then, Option.bind_eq_some_iff]

theorem KeepsTo.optional {w : List Char} (foreign : isForeign w = true)
    {f : List Char → Option (List Char)} (keeps : KeepsTo tail other (skipping f)) :
    KeepsTo tail other
      (skipping fun cs => if (afterWord w cs).isSome then f cs else some cs) :=
  (((KeepsTo.test starts starts' foreign true).andThen fun _ => keeps).or
    (KeepsTo.test starts starts' foreign false)).congr fun cs _ rest => by
      cases word : afterWord w cs <;> simp [skipping, Then, Markup.looking, word]

omit starts starts' in
theorem bind_ite {α β : Type} (p : Prop) [Decidable p] (x y : Option α) (f : α → Option β) :
    (if p then x else y).bind f = if p then x.bind f else y.bind f :=
  apply_ite (Option.bind · f) p x y

theorem keepsTo_skipDeclaration :
    KeepsTo tail other (skipping fun cs => skipDeclaration (' ' :: cs)) := by
  have spaces := keepsTo_skipSpaces starts starts'
  have pseudo := keepsTo_skipPseudo starts starts'
  have between := pseudo.bind (keepsTo_pseudoSpaces starts starts')
  have version : KeepsTo tail other (skipping fun cs =>
      if (afterWord "version".toList cs).isSome then (skipPseudo cs).bind pseudoSpaces else none) :=
    ((KeepsTo.test starts starts' (w := "version".toList) (by decide) true).andThen fun _ =>
      between).congr fun cs _ rest => by
        generalize "version".toList = w
        cases word : afterWord w cs <;> simp [skipping, Then, looking, word]
  have encoding := between.optional starts starts' (w := "encoding".toList) (by decide)
  have standalone := pseudo.optional starts starts' (w := "standalone".toList) (by decide)
  have last := spaces.bind (.word "?>".toList)
  refine (spaces.bind (version.bind (encoding.bind (standalone.bind last)))).congr
    fun cs _ rest => ?_
  have begins : pseudoSpaces (' ' :: cs) = some (skipSpaces cs) := rfl
  rw [skipping, skipping, skipDeclaration, begins]
  dsimp only [Option.bind_eq_bind, Option.bind_some]
  cases afterWord "version".toList (skipSpaces cs) with
  | none => rfl
  | some _ => simp only [Option.bind_some, Option.isSome_some, if_true, bind_ite]

/-! ## The document type -/

omit starts starts' in
theorem keepsTo_skipLiteral : KeepsTo tail other (skipping skipLiteral) :=
  (keepsTo_readQuote.andThen fun quote => (KeepsTo.quoted quote).andThen fun _ =>
    .giving fun _ : Unit => True).congr fun cs _ rest => by
      simp [skipping, skipLiteral, Then, reading, giving, Option.bind_eq_some_iff]

theorem keepsTo_skipExternal : KeepsTo tail other (reading skipExternal) := by
  have word {w : List Char} (foreign : isForeign w = true) :=
    KeepsTo.test starts starts' foreign false
  have literal := (keepsTo_needSpaces starts starts').andThen fun _ => keepsTo_skipLiteral
  have found : KeepsTo tail other (giving (· = true)) := .giving _
  refine (((KeepsTo.word "SYSTEM".toList).andThen fun _ => literal.andThen fun _ => found).or
    ((word (w := "SYSTEM".toList) (by decide)).andThen fun _ =>
      ((KeepsTo.word "PUBLIC".toList).andThen fun _ => literal.andThen fun _ =>
        literal.andThen fun _ => found).or
      ((word (w := "PUBLIC".toList) (by decide)).andThen fun _ =>
        .giving (· = false)))).congr fun cs found rest => ?_
  rw [reading, skipExternal]
  simp only [Then, skipping, looking, giving]
  generalize afterWord "SYSTEM".toList = system
  generalize afterWord "PUBLIC".toList = remote
  cases system cs with
  | some rest => simp [Option.bind_eq_some_iff]
  | none =>
      cases outside : remote cs with
      | some rest => simp [outside, Option.bind_eq_some_iff]
      | none => simp [outside, and_assoc, and_comm]

/-- What follows an identifier of something outside the document. -/
def readNotation (cs : List Char) : Option (Option (List Char) × List Char) :=
  match afterWord "NDATA".toList (skipSpaces cs) with
  | some rest => do
      let rest ← needSpaces rest
      let (_, rest) ← readName rest
      return (none, rest)
  | none => some (none, skipSpaces cs)

theorem keepsTo_readNotation : KeepsTo tail other (reading readNotation) := by
  have spaces := keepsTo_skipSpaces starts starts'
  refine ((spaces.andThen fun _ => (KeepsTo.word "NDATA".toList).andThen fun _ =>
      (keepsTo_needSpaces starts starts').andThen fun _ =>
        (keepsTo_readName starts starts').andThen fun _ => .giving (none = ·)).or
    (spaces.andThen fun _ =>
      (KeepsTo.test starts starts' (w := "NDATA".toList) (by decide) false).andThen fun _ =>
        .giving (none = ·))).congr fun cs value rest => ?_
  rw [reading, readNotation]
  simp only [Then, reading, skipping, looking, giving]
  generalize "NDATA".toList = w
  cases word : afterWord w (skipSpaces cs) with
  | some inside =>
      constructor
      · intro read
        obtain ⟨spaced, space, read⟩ := Option.bind_eq_some_iff.1 read
        obtain ⟨⟨name, left⟩, named, same⟩ := Option.bind_eq_some_iff.1 read
        cases same
        exact .inl ⟨(), _, rfl, (), inside, word, (), spaced, space, name, left, named, rfl, rfl⟩
      · rintro (⟨-, _, same, -, _, here, -, spaced, space, name, left, named, rfl, rfl⟩ |
          ⟨-, _, same, -, _, ⟨unseen, -⟩, -⟩)
        · cases same
          cases word.symm.trans here
          exact Option.bind_eq_some_iff.2 ⟨spaced, space,
            Option.bind_eq_some_iff.2 ⟨_, named, rfl⟩⟩
        · cases same
          rw [word] at unseen
          cases unseen
  | none =>
      constructor
      · intro same
        cases same
        exact .inr ⟨(), _, rfl, (), _, ⟨by rw [word]; rfl, rfl⟩, rfl, rfl⟩
      · rintro (⟨-, _, same, -, _, here, -⟩ | ⟨-, _, same, -, _, ⟨-, rfl⟩, rfl, rfl⟩)
        · cases same
          cases word.symm.trans here
        · cases same
          rfl

theorem keepsTo_readEntityValue (general : Bool) :
    KeepsTo tail other (reading (readEntityValue general)) := by
  have quoted : KeepsTo tail other (Then (reading readQuote) fun quote =>
      Then (reading (readQuoted quote)) fun value => giving (some value = ·)) :=
    keepsTo_readQuote.andThen fun quote => (KeepsTo.quoted quote).andThen fun value => .giving _
  have outside : KeepsTo tail other
      (reading fun cs => if general then readNotation cs else some (none, cs)) := by
    cases general with
    | true => exact keepsTo_readNotation starts starts'
    | false =>
        exact (KeepsTo.giving (none = ·)).congr fun cs value rest => by simp [reading, giving]
  refine (quoted.or ((KeepsTo.head starts starts' (fun c => c == '"' || c == '\'') false).andThen
    fun _ => (keepsTo_skipExternal starts starts').andThen fun found =>
      (KeepsTo.giving fun _ : Unit => found = true).andThen fun _ => outside)).congr
        fun cs value rest => ?_
  rw [reading, readEntityValue.eq_def]
  simp only [Then, reading, looking, giving]
  cases cs with
  | nil => simp [readQuote, skipExternal, afterWord]
  | cons c cs =>
      dsimp only
      split
      · rename_i quote
        have known : (some c).any (fun c => c == '"' || c == '\'') = true := by simpa using quote
        simp [readQuote, quote, known, Option.bind_eq_some_iff, and_assoc]
      · rename_i plain
        have known : (some c).any (fun c => c == '"' || c == '\'') = false := by simpa using plain
        simp [readQuote, plain, known, Option.bind_eq_some_iff]
        rfl

/-- The mark of a parameter entity, if there is one. -/
def readMark (cs : List Char) : Option (Bool × List Char) :=
  match cs with
  | '%' :: rest => (needSpaces rest).map fun rest => (false, rest)
  | _ => some (true, cs)

/-- Entities with one more, if it has a value. -/
def Entities.declare (entities : Entities) (name : List Char) : Option (List Char) → Entities
  | some value => entities ++ [(name, value)]
  | none => entities

/-- An entity declaration from its name on. -/
def readNamedEntity (entities : Entities) (general : Bool) (cs : List Char) :
    Option (Entities × List Char) := do
  let (name, rest) ← readName cs
  let rest ← needSpaces rest
  let (value, rest) ← readEntityValue general rest
  match skipSpaces rest with
  | '>' :: rest => return (entities.declare name value, rest)
  | _ => none

omit starts starts' in
theorem readMark_of_plain {cs : List Char} (plain : ∀ rest, cs ≠ '%' :: rest) :
    readMark cs = some (true, cs) := by
  rw [readMark.eq_def]
  split
  · exact absurd rfl (plain _)
  · rfl

omit starts starts' in
theorem readEntity_eq (entities : Entities) (cs : List Char) :
    readEntity entities cs = (needSpaces cs).bind fun spaced => (readMark spaced).bind fun marked =>
      readNamedEntity entities marked.1 marked.2 := by
  rw [readEntity]
  refine Option.bind_congr fun spaced _ => ?_
  split
  · rfl
  · rename_i plain
    rw [readMark_of_plain plain]
    rfl

theorem keepsTo_readMark : KeepsTo tail other (reading readMark) := by
  refine (((KeepsTo.word ['%']).andThen fun _ => (keepsTo_needSpaces starts starts').andThen
    fun _ => .giving (false = ·)).or
      ((KeepsTo.head starts starts' (· == '%') false).andThen fun _ =>
        .giving (true = ·))).congr fun cs general rest => ?_
  rw [reading, readMark.eq_def]
  simp only [Then, skipping, looking, giving]
  split
  · simp [afterWord, and_comm]
  · rename_i other
    cases cs with
    | nil => simp [afterWord, and_comm]
    | cons c cs =>
        have plain : c ≠ '%' := fun same => other cs (same ▸ rfl)
        simp [afterWord, plain, Ne.symm plain, and_comm]

theorem keepsTo_readNamedEntity (entities : Entities) (general : Bool) :
    KeepsTo tail other (reading (readNamedEntity entities general)) := by
  refine ((keepsTo_readName starts starts').andThen fun name =>
    (keepsTo_needSpaces starts starts').andThen fun _ =>
      (keepsTo_readEntityValue starts starts' general).andThen fun value =>
        (keepsTo_skipSpaces starts starts').andThen fun _ => (KeepsTo.word ['>']).andThen fun _ =>
          .giving (entities.declare name value = ·)).congr fun cs out rest => ?_
  rw [reading, readNamedEntity, Option.bind_eq_bind, Option.bind_eq_some_iff, Prod.exists]
  simp only [Then, reading, skipping, giving, exists_const]
  refine exists_congr fun name => exists_congr fun behind => and_congr_right fun _ => ?_
  rw [Option.bind_eq_bind, Option.bind_eq_some_iff]
  refine exists_congr fun inside => and_congr_right fun _ => ?_
  rw [Option.bind_eq_bind, Option.bind_eq_some_iff, Prod.exists]
  refine exists_congr fun value => exists_congr fun left => and_congr_right fun _ => ?_
  simp only [Option.some.injEq, exists_eq_left']
  cases skipSpaces left with
  | nil => simp [afterWord]
  | cons c more =>
      by_cases closes : c = '>'
      · subst closes
        simp only [Option.pure_def, Option.some.injEq, Prod.mk.injEq, afterWord, if_true,
          exists_eq_left']
      · simp [afterWord, closes, Ne.symm closes]

theorem keepsTo_readEntity (entities : Entities) :
    KeepsTo tail other (reading (readEntity entities)) :=
  ((keepsTo_needSpaces starts starts').andThen fun _ =>
    (keepsTo_readMark starts starts').andThen
      (keepsTo_readNamedEntity starts starts' entities)).congr fun cs out rest => by
        rw [reading, readEntity_eq]
        simp [Then, reading, skipping, Option.bind_eq_some_iff]

omit starts starts' in
/-- A declaration that is skipped begins with one of three words and ends with the first `>`. -/
theorem skipMarkupDeclaration_iff {cs rest : List Char} :
    skipMarkupDeclaration cs = some rest ↔
      (∃ w ∈ ["<!ELEMENT", "<!ATTLIST", "<!NOTATION"], (afterWord w.toList cs).isSome = true) ∧
        ∃ body, readQuoted '>' cs = some (body, rest) := by
  rw [skipMarkupDeclaration, readQuoted]
  split
  · rename_i begins
    rw [and_iff_right (List.any_eq_true.1 begins)]
    cases cs.dropWhile (· != '>') <;> simp
  · rename_i other
    exact iff_of_false (by simp) fun both => other (List.any_eq_true.2 both.1)

theorem keepsTo_skipMarkupDeclaration :
    KeepsTo tail other (skipping skipMarkupDeclaration) := by
  have begins : KeepsTo tail other (looking fun cs =>
      ∃ w ∈ ["<!ELEMENT", "<!ATTLIST", "<!NOTATION"], (afterWord w.toList cs).isSome = true) :=
    .looking fun inside ⟨w, member, found⟩ => by
      have foreign : isForeign w.toList = true :=
        List.all_eq_true.1 (by decide : (["<!ELEMENT", "<!ATTLIST", "<!NOTATION"].all
          (isForeign ·.toList)) = true) w member
      exact ⟨w, member, by rw [afterWord_beside starts starts' foreign, found]⟩
  refine (begins.andThen fun _ => (KeepsTo.quoted '>').andThen fun _ =>
    .giving fun _ : Unit => True).congr fun cs _ rest => ?_
  rw [skipping, skipMarkupDeclaration_iff]
  simp [Then, looking, reading, giving, and_assoc]

omit starts starts' in
/-- What one step inside a document type does.  The words with which declarations begin exclude
each other. -/
theorem readSubset_iff {fuel : Nat} {entities : Entities} {cs : List Char}
    {out : Entities × List Char} :
    readSubset (fuel + 1) entities cs = some out ↔
      (cs = [] ∧ out = (entities, [])) ∨
      (∃ inside, skipSpaces cs = ']' :: inside ∧
        ∃ rest, skipSpaces inside = '>' :: rest ∧ (entities, rest) = out) ∨
      (∃ inside entities' rest, afterWord "<!ENTITY".toList (skipSpaces cs) = some inside ∧
        readEntity entities inside = some (entities', rest) ∧
        readSubset fuel entities' rest = some out) ∨
      (∃ inside rest, afterWord "<!--".toList (skipSpaces cs) = some inside ∧
        skipComment inside = some rest ∧ readSubset fuel entities rest = some out) ∨
      (∃ inside rest, afterWord "<?".toList (skipSpaces cs) = some inside ∧
        skipInstruction inside = some rest ∧ readSubset fuel entities rest = some out) ∨
      (∃ rest, skipMarkupDeclaration (skipSpaces cs) = some rest ∧
        readSubset fuel entities rest = some out) := by
  constructor
  · intro read
    rw [readSubset.eq_def] at read
    dsimp only at read
    split at read
    · rename_i nothing
      split at read
      · rename_i empty
        exact .inl ⟨List.isEmpty_iff.1 empty, (Option.some.inj read).symm⟩
      · cases read
    · rename_i inside ends
      split at read
      · rename_i rest closes
        exact .inr (.inl ⟨inside, ends, rest, closes, Option.some.inj read⟩)
      · cases read
    · split at read
      · rename_i inside begins
        obtain ⟨⟨entities', rest⟩, entity, later⟩ := Option.bind_eq_some_iff.1 read
        exact .inr (.inr (.inl ⟨inside, entities', rest, begins, entity, later⟩))
      · split at read
        · rename_i inside begins
          obtain ⟨rest, skipped, later⟩ := Option.bind_eq_some_iff.1 read
          exact .inr (.inr (.inr (.inl ⟨inside, rest, begins, skipped, later⟩)))
        · split at read
          · rename_i inside begins
            obtain ⟨rest, skipped, later⟩ := Option.bind_eq_some_iff.1 read
            exact .inr (.inr (.inr (.inr (.inl ⟨inside, rest, begins, skipped, later⟩))))
          · obtain ⟨rest, skipped, later⟩ := Option.bind_eq_some_iff.1 read
            exact .inr (.inr (.inr (.inr (.inr ⟨rest, skipped, later⟩))))
  · rw [readSubset.eq_def]
    dsimp only
    generalize spaced : skipSpaces cs = s
    rintro (⟨rfl, rfl⟩ | ⟨inside, rfl, rest, closes, rfl⟩ |
      ⟨inside, entities', rest, begins, read, later⟩ | ⟨inside, rest, begins, skipped, later⟩ |
      ⟨inside, rest, begins, skipped, later⟩ | ⟨rest, skipped, later⟩)
    · cases spaced
      rfl
    · simp [closes]
    · have whole := afterWord_eq_some_iff.1 begins
      subst whole
      simp [afterWord, read, later]
    · have whole := afterWord_eq_some_iff.1 begins
      subst whole
      simp [afterWord, skipped, later]
    · have whole := afterWord_eq_some_iff.1 begins
      subst whole
      simp [afterWord, skipped, later]
    · obtain ⟨⟨w, member, begins⟩, -⟩ := skipMarkupDeclaration_iff.1 skipped
      obtain ⟨inside, begins⟩ := Option.isSome_iff_exists.1 begins
      have whole := afterWord_eq_some_iff.1 begins
      subst whole
      simp only [List.mem_cons, List.not_mem_nil, or_false] at member
      rcases member with rfl | rfl | rfl <;>
        · simp only [String.reduceToList, List.cons_append, List.nil_append] at skipped ⊢
          simp [afterWord, skipped, later]

theorem keepsTo_readSubset (fuel : Nat) (entities : Entities) :
    KeepsTo tail other (reading (readSubset fuel entities)) := by
  induction fuel generalizing entities with
  | zero => exact fun _ _ _ read => by cases read
  | succ fuel ih =>
      have spaces := keepsTo_skipSpaces starts starts'
      have finished : KeepsTo tail other fun cs (out : Entities) rest =>
          cs = [] ∧ (out, rest) = (entities, []) := by
        rintro cs out rest ⟨rfl, same⟩
        cases same
        obtain ⟨c, more, rfl, -⟩ := starts
        exact ⟨[], rfl, fun inside ends => by simp at ends⟩
      have closed := spaces.andThen fun _ => (KeepsTo.word [']']).andThen fun _ =>
        spaces.andThen fun _ => (KeepsTo.word ['>']).andThen fun _ => .giving (entities = ·)
      have entity := spaces.andThen fun _ => (KeepsTo.word "<!ENTITY".toList).andThen fun _ =>
        (keepsTo_readEntity starts starts' entities).andThen ih
      have comment := spaces.andThen fun _ => (KeepsTo.word "<!--".toList).andThen fun _ =>
        keepsTo_skipComment.andThen fun _ => ih entities
      have instruction := spaces.andThen fun _ => (KeepsTo.word "<?".toList).andThen fun _ =>
        (keepsTo_skipInstruction starts starts').andThen fun _ => ih entities
      have markup := spaces.andThen fun _ =>
        (keepsTo_skipMarkupDeclaration starts starts').andThen fun _ => ih entities
      refine (finished.or (closed.or (entity.or (comment.or (instruction.or markup))))).congr
        fun cs out rest => ?_
      rw [reading, readSubset_iff]
      simp only [Then, reading, skipping, giving]
      refine or_congr .rfl (or_congr ?_ (or_congr ?_ (or_congr ?_ (or_congr ?_ ?_))))
      · simp only [afterWord_eq_some_iff, Option.some.injEq, exists_const, exists_eq_left',
          List.singleton_append, Prod.mk.injEq]
      all_goals simp

/-! ## Enough fuel -/

omit starts starts' in
theorem skipMisc_mono {fuel more : Nat} (enough : fuel ≤ more) {cs out : List Char}
    (read : skipMisc fuel cs = some out) : skipMisc more cs = some out := by
  induction fuel generalizing more cs with
  | zero => cases read
  | succ fuel ih =>
      obtain ⟨more, rfl⟩ : ∃ n, more = n + 1 := ⟨more - 1, by omega⟩
      have later {cs : List Char} (read : skipMisc fuel cs = some out) :
          skipMisc more cs = some out :=
        ih (Nat.le_of_succ_le_succ enough) read
      refine skipMisc_iff.2 ((skipMisc_iff.1 read).imp ?_ (Or.imp_left ?_))
      · exact fun ⟨inside, rest, begins, skipped, read⟩ =>
          ⟨inside, rest, begins, skipped, later read⟩
      · exact fun ⟨inside, rest, begins, skipped, read⟩ =>
          ⟨inside, rest, begins, skipped, later read⟩

omit starts starts' in
theorem readSubset_mono {fuel more : Nat} (enough : fuel ≤ more) {entities : Entities}
    {cs : List Char} {out : Entities × List Char} (read : readSubset fuel entities cs = some out) :
    readSubset more entities cs = some out := by
  induction fuel generalizing more entities cs with
  | zero => cases read
  | succ fuel ih =>
      obtain ⟨more, rfl⟩ : ∃ n, more = n + 1 := ⟨more - 1, by omega⟩
      have later {entities : Entities} {cs : List Char}
          (read : readSubset fuel entities cs = some out) : readSubset more entities cs = some out :=
        ih (Nat.le_of_succ_le_succ enough) read
      rw [readSubset_iff] at read ⊢
      obtain finished | closed | ⟨inside, entities', rest, begins, entity, read⟩ |
        ⟨inside, rest, begins, skipped, read⟩ | ⟨inside, rest, begins, skipped, read⟩ |
        ⟨rest, skipped, read⟩ := read
      · exact .inl finished
      · exact .inr (.inl closed)
      · exact .inr (.inr (.inl ⟨inside, entities', rest, begins, entity, later read⟩))
      · exact .inr (.inr (.inr (.inl ⟨inside, rest, begins, skipped, later read⟩)))
      · exact .inr (.inr (.inr (.inr (.inl ⟨inside, rest, begins, skipped, later read⟩))))
      · exact .inr (.inr (.inr (.inr (.inr ⟨rest, skipped, later read⟩))))

omit starts starts' in
/-- A reader with fuel for the length of its text. -/
theorem KeepsTo.fueled (longer : tail.length ≤ other.length)
    {reads : Nat → List Char → α → List Char → Prop}
    (keeps : ∀ fuel, KeepsTo tail other (reads fuel))
    (mono : ∀ fuel more cs a rest, fuel ≤ more → reads fuel cs a rest → reads more cs a rest) :
    KeepsTo tail other fun cs => reads (cs.length + 1) cs := by
  intro cs a rest read
  obtain ⟨used, whole, elsewhere⟩ := keeps _ cs a rest read
  refine ⟨used, whole, fun inside ends => mono _ _ _ _ _ ?_ (elsewhere inside ends)⟩
  rw [whole, ends]
  simp only [List.length_append]
  omega

theorem keepsTo_readDoctype (longer : tail.length ≤ other.length) :
    KeepsTo tail other (reading readDoctype) := by
  have spaces := keepsTo_skipSpaces starts starts'
  have subset : KeepsTo tail other (reading fun cs => readSubset (cs.length + 1) [] cs) :=
    KeepsTo.fueled longer (keepsTo_readSubset starts starts' · [])
      fun _ _ _ _ _ enough read => readSubset_mono enough read
  refine ((keepsTo_needSpaces starts starts').andThen fun _ =>
    (keepsTo_readName starts starts').andThen fun _ => spaces.andThen fun _ =>
      (keepsTo_skipExternal starts starts').andThen fun _ => spaces.andThen fun _ =>
        ((KeepsTo.word ['>']).andThen fun _ => .giving ([] = ·)).or
          ((KeepsTo.word ['[']).andThen fun _ => subset)).congr fun cs out rest => ?_
  rw [reading, readDoctype, Option.bind_eq_bind, Option.bind_eq_some_iff]
  simp only [Then, reading, skipping, giving, exists_const]
  refine exists_congr fun spaced => and_congr_right fun _ => ?_
  rw [Option.bind_eq_bind, Option.bind_eq_some_iff, Prod.exists]
  refine exists_congr fun name => exists_congr fun behind => and_congr_right fun _ => ?_
  rw [Option.bind_eq_bind, Option.bind_eq_some_iff, Prod.exists]
  simp only [Option.some.injEq, exists_eq_left']
  refine exists_congr fun found => exists_congr fun left => and_congr_right fun _ => ?_
  generalize skipSpaces left = spaced
  split
  · simp [afterWord, and_comm]
  · simp [afterWord]
  · rename_i noEnd noSubset
    cases spaced with
    | nil => simp [afterWord]
    | cons c more =>
        have first : '>' ≠ c := fun same => noEnd more (same ▸ rfl)
        have second : '[' ≠ c := fun same => noSubset more (same ▸ rfl)
        simp [afterWord, first, second]

/-! ## The prolog -/

/-- The XML declaration, if there is one. -/
def skipOpening (cs : List Char) : Option (List Char) :=
  match afterWord "<?xml ".toList cs with
  | some rest => skipDeclaration (' ' :: rest)
  | none => some cs

/-- The document type, if there is one, and what follows it. -/
def readType (cs : List Char) : Option (Entities × List Char) :=
  match afterWord "<!DOCTYPE".toList cs with
  | some rest => do
      let (entities, rest) ← readDoctype rest
      let rest ← skipMisc (rest.length + 1) rest
      return (entities, rest)
  | none => some ([], cs)

omit starts starts' in
theorem readProlog_eq (cs : List Char) :
    readProlog cs =
      (skipOpening cs).bind fun cs => (skipMisc (cs.length + 1) cs).bind readType := by
  rw [readProlog, skipOpening]
  cases afterWord "<?xml ".toList cs <;> rfl

theorem keepsTo_skipOpening : KeepsTo tail other (skipping skipOpening) :=
  (((KeepsTo.word "<?xml ".toList).andThen fun _ => keepsTo_skipDeclaration starts starts').or
    (KeepsTo.test starts starts' (w := "<?xml ".toList) (by decide) false)).congr
      fun cs _ rest => by
        rw [skipping, skipOpening]
        generalize "<?xml ".toList = w
        cases word : afterWord w cs <;> simp [skipping, Then, looking, word]

/-- **What stands before the root element** is read the same whatever the tag of the root
element holds. -/
theorem readProlog_beside (longer : tail.length ≤ other.length) {cs : List Char}
    {entities : Entities} (read : readProlog cs = some (entities, tail)) :
    ∃ used, cs = used ++ tail ∧ readProlog (used ++ other) = some (entities, other) := by
  have misc : KeepsTo tail other (skipping fun cs => skipMisc (cs.length + 1) cs) :=
    KeepsTo.fueled longer (keepsTo_skipMisc starts starts')
      fun _ _ _ _ _ enough read => skipMisc_mono enough read
  have doctype : KeepsTo tail other (reading readType) :=
    (((KeepsTo.word "<!DOCTYPE".toList).andThen fun _ =>
      (keepsTo_readDoctype starts starts' longer).andThen fun entities =>
        misc.andThen fun _ => .giving (entities = ·)).or
      ((KeepsTo.test starts starts' (w := "<!DOCTYPE".toList) (by decide) false).andThen fun _ =>
        .giving ([] = ·))).congr fun cs out rest => by
          rw [reading, readType]
          generalize "<!DOCTYPE".toList = w
          cases word : afterWord w cs <;>
            simp [reading, skipping, Then, looking, giving, word, Option.bind_eq_some_iff]
  have whole : KeepsTo tail other (reading readProlog) :=
    ((keepsTo_skipOpening starts starts').andThen fun _ => misc.andThen fun _ => doctype).congr
      fun cs out rest => by
        rw [reading, readProlog_eq]
        simp [Then, reading, skipping, Option.bind_eq_some_iff]
  obtain ⟨used, cut, elsewhere⟩ := whole cs entities tail read
  exact ⟨used, cut, elsewhere [] rfl⟩

end

end Infographic.Markup
