/-
# Infographic.Proofs.TakenEscapes -- the escapes of a text that are decoded

An escape is written as an underscore, the letter `x`, letters and digits, and an underscore; it is
genuine if the letters and digits are the hexadecimal number of a character.  A text is cut at its
escapes, genuine or not: decoding puts the character in the place of each genuine one that is taken
and leaves all else alone (`decode_eq`).  Two escapes overlap in one underscore only, so a genuine
one is decoded unless its first underscore is the last one of an escape taken before it
(`escapes_taken`).
-/
import Infographic.Directive.Escape
import Infographic.Proofs.LeftmostCuts
import Mathlib.Data.List.Forall2
import Mathlib.Data.Nat.Digits.Defs
import Mathlib.Tactic.IntervalCases

namespace Infographic.Directive

set_option autoImplicit false

open Text (Clear Cut Cuts Distinct Taken Outside refill)

/-! ## Hexadecimal numbers -/

/-- A hexadecimal digit, its letter in either case, and its value. -/
def HexDigit (c : Char) (n : ℕ) : Prop :=
  n < 16 ∧ (c = n.digitChar ∨ c = n.digitChar.toUpper)

/-- A body is the hexadecimal number of a character. -/
def Names (body : List Char) (c : Char) : Prop :=
  ∃ digits, digits ≠ [] ∧ List.Forall₂ HexDigit body digits ∧
    Nat.ofDigits 16 digits.reverse = c.toNat

theorem lt_of_hexDigit? {c : Char} {n : ℕ} (read : hexDigit? c = some n) : c.toNat < 128 := by
  have below {last : Char} (small : last.toNat < 128) (le : c ≤ last) : c.toNat < 128 :=
    Nat.lt_of_le_of_lt (UInt32.le_iff_toNat_le.1 (Char.le_def.1 le)) small
  rw [hexDigit?] at read
  split at read
  · rename_i digit
    exact below (by decide) digit.2
  · split at read
    · rename_i letter
      exact below (by decide) letter.2
    · split at read
      · rename_i letter
        exact below (by decide) letter.2
      · cases read

instance (c : Char) (n : ℕ) : Decidable (HexDigit c n) :=
  inferInstanceAs (Decidable (_ ∧ _))

theorem hexDigit?_iff {c : Char} {n : ℕ} : hexDigit? c = some n ↔ HexDigit c n := by
  constructor
  · intro read
    have all : ∀ k : Fin 128, (hexDigit? (Char.ofNat k)).all
        (fun n => decide (HexDigit (Char.ofNat k) n)) = true := by
      decide
    have here := all ⟨c.toNat, lt_of_hexDigit? read⟩
    rw [Char.ofNat_toNat, read] at here
    simpa using here
  · rintro ⟨small, rfl | rfl⟩ <;> interval_cases n <;> rfl

/-- The step of reading a number digit by digit. -/
def pushDigit (n : Option ℕ) (c : Char) : Option ℕ := do
  return (← n) * 16 + (← hexDigit? c)

theorem foldl_pushDigit_none (body : List Char) : body.foldl pushDigit none = none := by
  induction body with
  | nil => rfl
  | cons c body ih => exact ih

theorem foldl_pushDigit_iff {body : List Char} {start n : ℕ} :
    body.foldl pushDigit (some start) = some n ↔
      ∃ digits, List.Forall₂ HexDigit body digits ∧
        digits.foldl (fun n d => n * 16 + d) start = n := by
  induction body generalizing start with
  | nil =>
      refine ⟨fun same => ⟨[], .nil, Option.some.inj same⟩, ?_⟩
      rintro ⟨_, _ | _, rfl⟩
      rfl
  | cons c body ih =>
      rw [List.foldl_cons]
      cases read : hexDigit? c with
      | none =>
          have stuck : pushDigit (some start) c = none := by simp [pushDigit, read]
          rw [stuck, foldl_pushDigit_none]
          refine iff_of_false (by simp) ?_
          rintro ⟨_, _ | ⟨digit, -⟩, -⟩
          simp [hexDigit?_iff.2 digit] at read
      | some d =>
          have pushed : pushDigit (some start) c = some (start * 16 + d) := by
            simp [pushDigit, read]
          rw [pushed, ih]
          constructor
          · rintro ⟨digits, all, rfl⟩
            exact ⟨d :: digits, .cons (hexDigit?_iff.1 read) all, rfl⟩
          · rintro ⟨_, _ | ⟨digit, all⟩, rfl⟩
            rw [hexDigit?_iff.2 digit] at read
            cases read
            exact ⟨_, all, rfl⟩

theorem foldl_digits (digits : List ℕ) :
    digits.foldl (fun n d => n * 16 + d) 0 = Nat.ofDigits 16 digits.reverse := by
  rw [Nat.ofDigits_eq_foldr, List.foldr_reverse]
  congr 1
  funext n d
  simp [Nat.add_comm, Nat.mul_comm]

theorem escapedChar?_iff {body : List Char} (nonempty : body ≠ []) {c : Char} :
    escapedChar? body = some c ↔ Names body c := by
  have number (n : ℕ) : hexNumber? body = some n ↔
      ∃ digits, List.Forall₂ HexDigit body digits ∧ Nat.ofDigits 16 digits.reverse = n := by
    simp only [← foldl_digits]
    exact foldl_pushDigit_iff
  have named : escapedChar? body = some c ↔ hexNumber? body = some c.toNat := by
    rw [escapedChar?]
    cases read : hexNumber? body with
    | none => simp
    | some n =>
        dsimp only
        split
        · rename_i valid
          rw [Option.some.injEq, Option.some.injEq]
          constructor
          · rintro rfl
            rw [Char.ofNat, dif_pos valid]
            rfl
          · rintro rfl
            exact Char.ofNat_toNat c
        · rename_i invalid
          refine iff_of_false (by simp) fun same => invalid ?_
          cases same
          exact c.valid
  rw [named, number, Names]
  constructor
  · rintro ⟨digits, all, same⟩
    refine ⟨digits, ?_, all, same⟩
    rintro rfl
    exact nonempty (List.forall₂_nil_right_iff.1 all)
  · rintro ⟨digits, -, all, same⟩
    exact ⟨digits, all, same⟩

/-! ## Escapes as words -/

/-- An escape as it stands in a text. -/
def wholeEscape (body : List Char) : List Char :=
  '_' :: 'x' :: (body ++ ['_'])

/-- An underscore, the letter `x`, one or more letters and digits, an underscore. -/
def IsEscape (w : List Char) : Prop :=
  ∃ body, w = wholeEscape body ∧ body ≠ [] ∧ ∀ c ∈ body, isWordChar c = true

/-- An escape that is the hexadecimal number of a character. -/
def Genuine (w : List Char) (c : Char) : Prop :=
  ∃ body, w = wholeEscape body ∧ Names body c

variable {cs gap body rest tail : List Char} {cuts : List Cut}

theorem not_mem_of_word (word : ∀ c ∈ body, isWordChar c = true) : '_' ∉ body := fun member =>
  absurd (word _ member) (by decide)

theorem isWordChar_of_hexDigit {c : Char} {n : ℕ} (digit : HexDigit c n) : isWordChar c = true := by
  obtain ⟨small, rfl | rfl⟩ := digit <;> interval_cases n <;> rfl

theorem word_of_names {c : Char} (names : Names body c) :
    body ≠ [] ∧ ∀ d ∈ body, isWordChar d = true := by
  obtain ⟨digits, nonempty, all, -⟩ := names
  refine ⟨?_, fun d member => ?_⟩
  · rintro rfl
    exact nonempty (List.forall₂_nil_left_iff.1 all)
  · have word := all.imp fun c n digit => And.intro (isWordChar_of_hexDigit digit) digit
    exact ((List.forall₂_and_left _ _).1 word).1 d member

theorem Genuine.isEscape {w : List Char} {c : Char} (genuine : Genuine w c) : IsEscape w := by
  obtain ⟨body, rfl, names⟩ := genuine
  exact ⟨body, rfl, word_of_names names⟩

theorem escapeBody?_iff : escapeBody? cs = some body ↔
    ∃ after, cs = wholeEscape body ++ after ∧ body ≠ [] ∧ ∀ c ∈ body, isWordChar c = true := by
  constructor
  · intro found
    rw [escapeBody?.eq_def] at found
    split at found
    · rename_i inner
      dsimp only at found
      split at found
      · rename_i after closing
        split at found
        · cases found
        · rename_i nonempty
          cases found
          have cut := List.takeWhile_append_dropWhile (p := isWordChar) (l := inner)
          rw [closing] at cut
          refine ⟨after, ?_, by simpa using nonempty, fun c member =>
            List.all_eq_true.1 List.all_takeWhile c member⟩
          rw [wholeEscape, List.cons_append, List.cons_append, List.append_assoc]
          exact congrArg _ (congrArg _ cut.symm)
      · cases found
    · cases found
  · rintro ⟨after, rfl, nonempty, word⟩
    have whole : wholeEscape body ++ after = '_' :: 'x' :: (body ++ '_' :: after) := by
      simp [wholeEscape]
    have stop : ('_' :: after).takeWhile isWordChar = [] := List.takeWhile_cons_of_neg (by decide)
    have stop' : ('_' :: after).dropWhile isWordChar = '_' :: after :=
      List.dropWhile_cons_of_neg (by decide)
    rw [whole, escapeBody?, List.takeWhile_append_of_pos word, List.dropWhile_append_of_pos word,
      stop, stop']
    simp [nonempty]

theorem distinct_escapes : Distinct IsEscape where
  nonempty := by
    rintro w ⟨body, rfl, -⟩
    simp [wholeEscape]
  unique := by
    rintro v w rest more ⟨body, rfl, word⟩ ⟨body', rfl, word'⟩ same
    have read := escapeBody?_iff.2 ⟨rest, rfl, word⟩
    rw [escapeBody?_iff.2 ⟨more, same, word'⟩] at read
    rw [Option.some.inj read]

/-! ## Decoding -/

/-- What an escape is decoded as: its character, or itself if it names none. -/
def shown (w : List Char) : List Char :=
  match (escapeBody? w).bind escapedChar? with
  | some c => [c]
  | none => w

theorem shown_wholeEscape (nonempty : body ≠ []) (word : ∀ c ∈ body, isWordChar c = true) :
    shown (wholeEscape body) = match escapedChar? body with
      | some c => [c]
      | none => wholeEscape body := by
  have read := escapeBody?_iff.2 ⟨[], (List.append_nil _).symm, nonempty, word⟩
  rw [shown, read]
  rfl

theorem shown_of_genuine {w : List Char} {c : Char} (genuine : Genuine w c) : shown w = [c] := by
  obtain ⟨body, rfl, names⟩ := genuine
  obtain ⟨nonempty, word⟩ := word_of_names names
  rw [shown_wholeEscape nonempty word, (escapedChar?_iff nonempty).2 names]

theorem shown_of_not_genuine {w : List Char} (escape : IsEscape w) (other : ∀ c, ¬ Genuine w c) :
    shown w = w := by
  obtain ⟨body, rfl, nonempty, word⟩ := escape
  rw [shown_wholeEscape nonempty word]
  cases read : escapedChar? body with
  | none => rfl
  | some c => exact absurd ⟨body, rfl, (escapedChar?_iff nonempty).1 read⟩ (other c)

theorem decodeFrom_eq (skip : Nat) (cs : List Char) :
    decodeFrom skip cs = decode (cs.drop skip) := by
  induction cs generalizing skip with
  | nil => simp [decode, decodeFrom]
  | cons c cs ih =>
      cases skip with
      | zero => rfl
      | succ skip => rw [decodeFrom, ih, List.drop_succ_cons]

theorem decode_escape {w : List Char} (escape : IsEscape w) :
    decode (w ++ rest) = shown w ++ decode rest := by
  obtain ⟨body, rfl, nonempty, word⟩ := escape
  have here := escapeBody?_iff.2 ⟨rest, rfl, nonempty, word⟩
  have whole : wholeEscape body ++ rest = '_' :: ('x' :: (body ++ ['_']) ++ rest) := by
    simp [wholeEscape]
  have length : body.length + 2 = ('x' :: (body ++ ['_'])).length := by simp
  rw [shown_wholeEscape nonempty word]
  rw [whole] at here ⊢
  rw [decode, decodeFrom, here]
  dsimp only
  rw [decodeFrom_eq, length, List.drop_left]
  cases escapedChar? body with
  | some c => rfl
  | none => simp [wholeEscape]

/-- What stands in front of the next escape is left as it is. -/
theorem decode_gap (first : Clear IsEscape gap (gap ++ rest)) :
    decode (gap ++ rest) = gap ++ decode rest := by
  induction gap with
  | nil => rfl
  | cons c gap ih =>
      have later := ih first.of_cons
      have here : escapeBody? (c :: (gap ++ rest)) = none := by
        rw [Option.eq_none_iff_forall_ne_some]
        intro body found
        obtain ⟨after, whole, word⟩ := escapeBody?_iff.1 found
        exact first.ne_append ⟨body, rfl, word⟩ whole
      rw [List.cons_append, decode, decodeFrom, here]
      exact congrArg (c :: ·) later

theorem decode_gap_of_not_mem (free : '_' ∉ gap) : decode (gap ++ rest) = gap ++ decode rest := by
  refine decode_gap fun before v more escape whole => ?_
  obtain ⟨body, rfl, -⟩ := escape
  by_contra shorter
  have begins : before ++ ['_'] <+: gap ++ rest :=
    ⟨'x' :: (body ++ ['_']) ++ more, by rw [whole]; simp [wholeEscape]⟩
  have inside : before ++ ['_'] <+: gap := by
    refine List.prefix_of_prefix_length_le begins ⟨rest, rfl⟩ ?_
    rw [List.length_append]
    exact not_le.1 shorter
  exact free (inside.subset (by simp))

theorem decode_next {w after : List Char} (word : IsEscape w) (whole : cs = gap ++ (w ++ after))
    (first : Clear IsEscape gap cs) : decode cs = gap ++ (shown w ++ decode after) := by
  subst whole
  rw [decode_gap first, decode_escape word]

/-- **Each escape that is taken is decoded once, and all else is left as it is.** -/
theorem decode_eq (cut : Cuts IsEscape cs cuts tail) :
    decode cs = refill cuts (cuts.map fun c => shown c.word) tail := by
  induction cut with
  | @last tail free =>
      have plain : decode (tail ++ []) = tail ++ decode [] :=
        decode_gap (by rw [List.append_nil]; exact Text.clear_of_free free)
      have nothing : decode [] = [] := rfl
      rwa [nothing, List.append_nil] at plain
  | next word whole first later ih =>
      rw [decode_next word whole first, ih]
      rfl

/-! ## Genuine escapes -/

/-- An escape that is taken is decoded apart from the text around it. -/
theorem decode_of_taken {before w : List Char} (cut : Cuts IsEscape cs cuts tail)
    (taken : Taken cuts before w) :
    IsEscape w ∧ ∃ after, cs = before ++ (w ++ after) ∧
      decode cs = decode before ++ (shown w ++ decode after) ∧
      decode (before ++ w) = decode before ++ shown w := by
  obtain ⟨escape, front, gap, later, after, rfl, whole, ahead, through, behind⟩ :=
    cut.around distinct_escapes taken
  refine ⟨escape, after, whole, ?_, ?_⟩
  · rw [decode_eq cut, decode_eq ahead, decode_eq behind, Text.refill_append]
  · rw [decode_eq through, decode_eq ahead, Text.refill_append, List.map_nil]
    simp [refill]

/-- Two escapes overlap in one underscore only. -/
theorem append_of_overlap {before other w after more : List Char} (escape : IsEscape w)
    (whole : cs = before ++ '_' :: after) (here : cs = other ++ (w ++ more))
    (left : other.length < before.length) (inside : before.length < other.length + w.length) :
    other ++ w = before ++ ['_'] := by
  obtain ⟨body, rfl, nonempty, word⟩ := escape
  obtain ⟨u, rfl⟩ : other <+: before :=
    List.prefix_of_prefix_length_le ⟨_, here.symm⟩ ⟨_, whole.symm⟩ left.le
  obtain ⟨d, u, rfl⟩ := List.exists_cons_of_ne_nil (l := u) <| by
    rintro rfl
    simp at left
  have cut : wholeEscape body ++ more = d :: u ++ '_' :: after := by
    simpa using here.symm.trans whole
  have begins : d :: u ++ ['_'] <+: wholeEscape body ++ more := ⟨after, by rw [cut]; simp⟩
  have initial : d :: u ++ ['_'] <+: wholeEscape body := by
    refine List.prefix_of_prefix_length_le begins ⟨more, rfl⟩ ?_
    simp only [List.length_append, List.length_cons, List.length_nil] at inside ⊢
    omega
  obtain ⟨z, cut⟩ := initial
  -- No underscore stands between the first character of an escape and the last one.
  have tail : u ++ '_' :: z = ('x' :: body) ++ ['_'] := by
    have same : d :: (u ++ '_' :: z) = '_' :: ('x' :: body ++ ['_']) := by
      simpa [wholeEscape] using cut
    exact List.tail_eq_of_cons_eq same
  rcases List.eq_nil_or_concat z with rfl | ⟨z, e, rfl⟩
  · rw [← cut]
    simp
  · have between : (u ++ '_' :: z) ++ [e] = ('x' :: body) ++ ['_'] := by simpa using tail
    have middle := (List.append_inj' between rfl).1
    have member : '_' ∈ 'x' :: body := middle ▸ by simp
    simp [not_mem_of_word word] at member

/-- **The escapes of a text that are decoded.**  A text is cut at its escapes in one way; each one
that is taken is shown as its character, or as it is if it names none, and all else stays as it is.
A genuine escape that begins inside none that is taken is decoded.  Any other one begins with the
last underscore of an escape that is taken before it, and its letters and digits are left as they
are.  So the genuine escapes that overlap no genuine one before them are decoded if all that are
taken are genuine. -/
theorem escapes_taken (text : List Char) :
    ∃ cuts tail, Cuts IsEscape text cuts tail ∧
      (∀ others rest, Cuts IsEscape text others rest → others = cuts ∧ rest = tail) ∧
      decode text = refill cuts (cuts.map fun c => shown c.word) tail ∧
      (∀ c ∈ cuts, (∀ d, Genuine c.word d → shown c.word = [d]) ∧
        ((∀ d, ¬ Genuine c.word d) → shown c.word = c.word)) ∧
      (∀ before body c after, text = before ++ (wholeEscape body ++ after) → Names body c →
        (Outside cuts before → decode text = decode before ++ c :: decode after) ∧
        (¬ Outside cuts before → ∃ other w, Taken cuts other w ∧ other ++ w = before ++ ['_'] ∧
          decode text = decode (before ++ ['_']) ++ ('x' :: body ++ decode ('_' :: after)))) ∧
      ((∀ c ∈ cuts, ∃ d, Genuine c.word d) → Cuts (fun w => ∃ d, Genuine w d) text cuts tail) := by
  obtain ⟨cuts, tail, cut⟩ := Text.exists_cuts distinct_escapes text
  refine ⟨cuts, tail, cut, fun others rest => cut.unique distinct_escapes, decode_eq cut,
    fun c member => ⟨fun d => shown_of_genuine, shown_of_not_genuine (cut.words c member)⟩,
    fun before body c after whole names => ?_, fun all => cut.narrow ?_ all⟩
  · obtain ⟨nonempty, word⟩ := word_of_names names
    have genuine : Genuine (wholeEscape body) c := ⟨body, rfl, names⟩
    refine ⟨fun outside => ?_, fun inside => ?_⟩
    · have taken := (cut.taken_iff distinct_escapes genuine.isEscape whole).2 outside
      obtain ⟨-, after', here, decoded, -⟩ := decode_of_taken cut taken
      obtain rfl : after = after' := by simpa using whole.symm.trans here
      rw [decoded, shown_of_genuine genuine]
      rfl
    · simp only [Outside, not_forall, not_not] at inside
      obtain ⟨other, w, taken, left, right⟩ := inside
      obtain ⟨escape, more, here, decoded, through⟩ := decode_of_taken cut taken
      have begins : text = before ++ '_' :: ('x' :: (body ++ '_' :: after)) := by
        rw [whole]
        simp [wholeEscape]
      have ends := append_of_overlap escape begins here left right
      refine ⟨other, w, taken, ends, ?_⟩
      have behind : more = 'x' :: body ++ '_' :: after := by
        rw [← List.append_assoc, ends] at here
        simpa using here.symm.trans begins
      have free : '_' ∉ 'x' :: body := by simp [not_mem_of_word word]
      rw [decoded, ← ends, through, behind, decode_gap_of_not_mem free, List.append_assoc]
  · rintro w ⟨d, genuine⟩
    exact genuine.isEscape

/-- An escape that names no character takes the underscore away from the genuine one behind it. -/
theorem not_escapes_taken :
    ¬ ∀ text cuts tail, Cuts (fun w => ∃ d, Genuine w d) text cuts tail →
      decode text = refill cuts (cuts.map fun c => shown c.word) tail := by
  intro decoded
  have names : Names "41".toList 'A' :=
    ⟨[4, 1], by decide, .cons (by decide) (.cons (by decide) .nil), by decide⟩
  have cut : Cuts (fun w => ∃ d, Genuine w d) "_xZZ_x41_".toList
      [⟨"_xZZ".toList, "_x41_".toList⟩] [] := by
    have ends : Cuts (fun w => ∃ d, Genuine w d) [] [] [] := .last <| by
      rintro w ⟨d, body, rfl, -⟩ inside
      simpa [wholeEscape] using List.eq_nil_of_infix_nil inside
    refine .next ⟨'A', _, rfl, names⟩ (by rfl) ?_ ends
    rintro before v more ⟨d, body, rfl, digits, nonempty, all, -⟩ whole
    cases all with
    | nil => exact absurd rfl nonempty
    | @cons c n _ _ digit all =>
        have letters : "_xZZ_x41_".toList = ['_', 'x', 'Z', 'Z', '_', 'x', '4', '1', '_'] := rfl
        rw [letters] at whole
        -- No escape begins at the three characters in the middle, and `Z` is no digit.
        have place : before = [] ∨ 4 ≤ before.length := by
          match before with
          | [] => exact .inl rfl
          | [_] | [_, _] | [_, _, _] => simp [wholeEscape] at whole
          | _ :: _ :: _ :: _ :: rest => exact .inr (Nat.le_add_left 4 rest.length)
        rcases place with rfl | behind
        · have letter : 'Z' = c := Option.some.inj (congrArg (·[2]?) whole)
          have other : hexDigit? 'Z' = none := by decide
          rw [letter, hexDigit?_iff.2 digit] at other
          cases other
        · exact behind
  exact absurd (decoded _ _ _ cut) (by decide)

end Infographic.Directive
