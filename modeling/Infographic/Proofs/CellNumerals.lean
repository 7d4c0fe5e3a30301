/-
# Infographic.Proofs.CellNumerals -- the texts that are read as numbers

A literal is a sign, digits with or without a point, and an exponent.  A text is read as a literal
exactly if it is written in this way (`Literal.isSome_read_iff`), and what is read is the literal
that is written (`Literal.read_of_writes`).  The text of a cell stands for a number if it is blank,
or without the blanks at its ends a literal or the word for infinity; any other text is read as
not-a-number (`readCell_of_not_isCellNumber`).
-/
import Infographic.Proofs.PlainNumbers
import Infographic.Proofs.TextPieces

namespace Infographic.Number

set_option autoImplicit false

namespace Literal

variable {cs rest : List Char}

/-! ## Signs -/

/-- The texts of a sign. -/
def signTexts : Bool → List (List Char)
  | true => [['-']]
  | false => [[], ['+']]

theorem mem_signTexts {sign : List Char} :
    sign ∈ [[], ['-'], ['+']] ↔ ∃ negative, sign ∈ signTexts negative := by
  simp only [Bool.exists_bool, signTexts, List.mem_cons, List.not_mem_nil, or_false]
  exact or_assoc.symm.trans (or_right_comm)

theorem readSign_of_mem {negative : Bool} {sign : List Char} (signed : sign ∈ signTexts negative)
    (unsigned : ∀ c ∈ rest.head?, c ≠ '-' ∧ c ≠ '+') :
    readSign (sign ++ rest) = (negative, rest) := by
  cases negative with
  | true =>
      obtain rfl := List.mem_singleton.1 signed
      rfl
  | false =>
      simp only [signTexts, List.mem_cons, List.not_mem_nil, or_false] at signed
      rcases signed with rfl | rfl
      · rw [List.nil_append, readSign.eq_def]
        split
        · exact absurd rfl (unsigned '-' (by simp)).1
        · exact absurd rfl (unsigned '+' (by simp)).2
        · rfl
      · rfl

theorem readSign_append {sign : List Char} (signed : sign ∈ [[], ['-'], ['+']])
    (unsigned : ∀ c ∈ rest.head?, c ≠ '-' ∧ c ≠ '+') : (readSign (sign ++ rest)).2 = rest := by
  obtain ⟨negative, written⟩ := mem_signTexts.1 signed
  rw [readSign_of_mem written unsigned]

theorem exists_readSign (cs : List Char) :
    ∃ sign ∈ [[], ['-'], ['+']], cs = sign ++ (readSign cs).2 := by
  rw [readSign.eq_def]
  split
  · exact ⟨['-'], by simp, rfl⟩
  · exact ⟨['+'], by simp, rfl⟩
  · exact ⟨[], by simp, rfl⟩

theorem ne_sign_of_isDigit {c : Char} (digit : isDigit c = true) : c ≠ '-' ∧ c ≠ '+' := by
  constructor <;> rintro rfl <;> exact absurd digit (by decide)

/-! ## Literals -/

/-- The letter of an exponent and digits behind an optional sign, or nothing. -/
inductive IsExponent : List Char → Prop
  | absent : IsExponent []
  | present {mark : Char} {sign digits : List Char} (marked : mark = 'e' ∨ mark = 'E')
      (signed : sign ∈ [[], ['-'], ['+']]) (all : AllDigits digits) (nonempty : digits ≠ []) :
      IsExponent (mark :: (sign ++ digits))

/-- Digits behind an optional sign, with a point or without, and an optional exponent. -/
inductive IsLiteral : List Char → Prop
  | whole {sign digits exponent : List Char} (signed : sign ∈ [[], ['-'], ['+']])
      (all : AllDigits digits) (nonempty : digits ≠ []) (ends : IsExponent exponent) :
      IsLiteral (sign ++ (digits ++ exponent))
  | point {sign digits fraction exponent : List Char} (signed : sign ∈ [[], ['-'], ['+']])
      (all : AllDigits digits) (behind : AllDigits fraction)
      (nonempty : digits ≠ [] ∨ fraction ≠ []) (ends : IsExponent exponent) :
      IsLiteral (sign ++ (digits ++ '.' :: (fraction ++ exponent)))

theorem isSome_readInteger (cs : List Char) :
    (readInteger cs).isSome = (!(readSign cs).2.isEmpty && (readSign cs).2.all isDigit) := by
  unfold readInteger
  generalize readSign cs = signed
  obtain ⟨negative, ds⟩ := signed
  dsimp only
  split
  · rename_i bad
    have refused : (!ds.isEmpty && ds.all isDigit) = false := by
      rw [← Bool.not_eq_true', Bool.not_and, Bool.not_not]
      exact bad
    rw [refused, Option.isSome_none]
  · rename_i good
    simpa using good

/-- The digits of an integer, behind its sign. -/
theorem isSome_readInteger_iff :
    (readInteger cs).isSome = true ↔
      ∃ sign ∈ [[], ['-'], ['+']], ∃ digits,
        cs = sign ++ digits ∧ AllDigits digits ∧ digits ≠ [] := by
  rw [isSome_readInteger, Bool.and_eq_true, Bool.not_eq_true', List.isEmpty_eq_false_iff,
    List.all_eq_true]
  constructor
  · rintro ⟨nonempty, all⟩
    obtain ⟨sign, signed, cut⟩ := exists_readSign cs
    exact ⟨sign, signed, _, cut, all, nonempty⟩
  · rintro ⟨sign, signed, digits, rfl, all, nonempty⟩
    rw [readSign_append signed fun c first =>
      ne_sign_of_isDigit (all c (List.mem_of_mem_head? first))]
    exact ⟨nonempty, all⟩

theorem isSome_readExponent_iff : (readExponent cs).isSome = true ↔ IsExponent cs := by
  constructor
  · intro found
    rw [readExponent.eq_def] at found
    split at found
    · exact .absent
    · obtain ⟨sign, signed, digits, rfl, all, nonempty⟩ := isSome_readInteger_iff.1 found
      exact .present (.inl rfl) signed all nonempty
    · obtain ⟨sign, signed, digits, rfl, all, nonempty⟩ := isSome_readInteger_iff.1 found
      exact .present (.inr rfl) signed all nonempty
    · cases found
  · rintro (_ | ⟨rfl | rfl, signed, all, nonempty⟩)
    · rfl
    · exact isSome_readInteger_iff.2 ⟨_, signed, _, rfl, all, nonempty⟩
    · exact isSome_readInteger_iff.2 ⟨_, signed, _, rfl, all, nonempty⟩

/-- An exponent begins with no character of the digits before it. -/
theorem IsExponent.head (ends : IsExponent cs) : ∀ c ∈ cs.head?, isDigit c = false ∧ c ≠ '.' := by
  cases ends with
  | absent => simp
  | present marked signed all nonempty =>
      rcases marked with rfl | rfl <;> simp <;> decide

theorem readFraction_of_head (free : ∀ c ∈ cs.head?, c ≠ '.') : readFraction cs = ([], cs) := by
  rw [readFraction.eq_def]
  split
  · exact absurd rfl (free '.' rfl)
  · rfl

theorem isSome_read (cs : List Char) :
    (read cs).isSome =
      (!(((readSign cs).2.takeWhile isDigit).isEmpty &&
          (readFraction ((readSign cs).2.dropWhile isDigit)).1.isEmpty) &&
        (readExponent (readFraction ((readSign cs).2.dropWhile isDigit)).2).isSome) := by
  unfold read
  generalize readSign cs = signed
  obtain ⟨negative, unsigned⟩ := signed
  dsimp only
  generalize readFraction (unsigned.dropWhile isDigit) = fractional
  obtain ⟨fraction, rest⟩ := fractional
  dsimp only
  split
  · rename_i bare
    simp [bare]
  · rename_i digits
    simp [digits]

/-- **A text is read as a literal exactly if it is written as one.** -/
theorem isSome_read_iff : (read cs).isSome = true ↔ IsLiteral cs := by
  rw [isSome_read, Bool.and_eq_true, Bool.not_eq_true', isSome_readExponent_iff]
  constructor
  · rintro ⟨some, ends⟩
    obtain ⟨sign, signed, cut⟩ := exists_readSign cs
    generalize (readSign cs).2 = unsigned at some ends cut
    subst cut
    have all {ds : List Char} : AllDigits (ds.takeWhile isDigit) := fun c member =>
      List.all_eq_true.1 List.all_takeWhile c member
    rw [← List.takeWhile_append_dropWhile (p := isDigit) (l := unsigned)]
    rw [readFraction.eq_def] at some ends
    split at some
    · rename_i behind dropped
      rw [dropped] at ends ⊢
      rw [← List.takeWhile_append_dropWhile (p := isDigit) (l := behind)]
      refine .point signed all all ?_ ends
      simpa [Classical.or_iff_not_imp_left] using some
    · rename_i free
      split at ends
      · rename_i behind dropped
        exact absurd dropped (free behind)
      · refine .whole signed all ?_ ends
        simpa using some
  · rintro (⟨signed, all, nonempty, ends⟩ | ⟨signed, all, behind, nonempty, ends⟩)
    · rename_i sign digits exponent
      obtain ⟨taken, dropped⟩ := Json.Lexeme.takeWhile_digits all fun c first =>
        (ends.head c first).1
      have first : ∀ c ∈ (digits ++ exponent).head?, c ≠ '-' ∧ c ≠ '+' := by
        obtain ⟨d, more, rfl⟩ := List.exists_cons_of_ne_nil nonempty
        simpa using ne_sign_of_isDigit (all d List.mem_cons_self)
      rw [readSign_append signed first, taken, dropped,
        readFraction_of_head fun c first => (ends.head c first).2]
      exact ⟨by simp [nonempty], ends⟩
    · rename_i sign digits fraction exponent
      have stops : ∀ c ∈ ('.' :: (fraction ++ exponent)).head?, isDigit c = false := by
        simp only [List.head?_cons, Option.mem_some_iff, forall_eq']
        decide
      obtain ⟨taken, dropped⟩ := Json.Lexeme.takeWhile_digits all stops
      obtain ⟨inside, after⟩ := Json.Lexeme.takeWhile_digits behind fun c first =>
        (ends.head c first).1
      have first : ∀ c ∈ (digits ++ '.' :: (fraction ++ exponent)).head?, c ≠ '-' ∧ c ≠ '+' := by
        cases digits with
        | nil => simp
        | cons d more => simpa using ne_sign_of_isDigit (all d List.mem_cons_self)
      rw [readSign_append signed first, taken, dropped, readFraction, inside, after]
      refine ⟨?_, ends⟩
      simpa [Classical.or_iff_not_imp_left] using nonempty

instance (cs : List Char) : Decidable (IsLiteral cs) :=
  decidable_of_iff _ isSome_read_iff

/-! ## What a literal says -/

/-- The texts of an exponent: a letter, an optional sign and digits, or nothing for zero. -/
inductive WritesExponent : ℤ → List Char → Prop
  | absent : WritesExponent 0 []
  | present {mark : Char} {negative : Bool} {sign digits : List Char}
      (marked : mark = 'e' ∨ mark = 'E') (signed : sign ∈ signTexts negative)
      (all : AllDigits digits) (nonempty : digits ≠ []) :
      WritesExponent (if negative then -digitsValue digits else digitsValue digits)
        (mark :: (sign ++ digits))

/-- A point and the digits behind it, or nothing if there is no digit. -/
def pointed (fraction : List Char) : List Char :=
  if fraction = [] then [] else '.' :: fraction

/-- The texts of a literal that neither begin nor end with a point. -/
inductive Writes : Literal → List Char → Prop
  | parts {negative : Bool} {exponent : ℤ} {sign whole fraction ending : List Char}
      (signed : sign ∈ signTexts negative) (all : AllDigits whole) (nonempty : whole ≠ [])
      (behind : AllDigits fraction) (ends : WritesExponent exponent ending) :
      Writes ⟨negative, whole, fraction, exponent⟩ (sign ++ (whole ++ (pointed fraction ++ ending)))

theorem WritesExponent.isExponent {exponent : ℤ} (ends : WritesExponent exponent cs) :
    IsExponent cs := by
  cases ends with
  | absent => exact .absent
  | present marked signed all nonempty =>
      exact .present marked (mem_signTexts.2 ⟨_, signed⟩) all nonempty

theorem readInteger_of_signed {negative : Bool} {sign digits : List Char}
    (signed : sign ∈ signTexts negative) (all : AllDigits digits) (nonempty : digits ≠ []) :
    readInteger (sign ++ digits) =
      some (if negative then -digitsValue digits else digitsValue digits : ℤ) := by
  have accepted : ¬ (digits.isEmpty || !digits.all isDigit) = true := by
    rw [Bool.or_eq_true, Bool.not_eq_true', List.all_eq_false]
    rintro (empty | ⟨c, member, other⟩)
    · exact nonempty (List.isEmpty_iff.1 empty)
    · exact other (all c member)
  rw [readInteger, readSign_of_mem signed fun c first =>
    ne_sign_of_isDigit (all c (List.mem_of_mem_head? first))]
  dsimp only
  rw [if_neg accepted]

theorem readExponent_of_writes {exponent : ℤ} (ends : WritesExponent exponent cs) :
    readExponent cs = some exponent := by
  cases ends with
  | absent => rfl
  | present marked signed all nonempty =>
      rcases marked with rfl | rfl <;> exact readInteger_of_signed signed all nonempty

/-- What follows the digits before the point begins with no digit. -/
theorem head?_pointed {fraction ending : List Char} (ends : IsExponent ending) :
    ∀ c ∈ (pointed fraction ++ ending).head?, isDigit c = false := by
  unfold pointed
  split
  · exact fun c first => (ends.head c first).1
  · intro c first
    obtain rfl : '.' = c := Option.some.inj first
    decide

theorem readFraction_pointed {fraction ending : List Char} (behind : AllDigits fraction)
    (ends : IsExponent ending) :
    readFraction (pointed fraction ++ ending) = (fraction, ending) := by
  unfold pointed
  split
  · rename_i none
    rw [none, List.nil_append, readFraction_of_head fun c first => (ends.head c first).2]
  · obtain ⟨inside, after⟩ := Json.Lexeme.takeWhile_digits behind fun c first =>
      (ends.head c first).1
    rw [List.cons_append, readFraction, inside, after]

/-- **A literal is read from each of its texts.** -/
theorem read_of_writes {l : Literal} (written : l.Writes cs) : read cs = some l := by
  cases written with
  | @parts negative exponent sign whole fraction ending signed all nonempty behind ends =>
      have stops : ∀ c ∈ (pointed fraction ++ ending).head?, isDigit c = false :=
        head?_pointed ends.isExponent
      obtain ⟨taken, dropped⟩ := Json.Lexeme.takeWhile_digits all stops
      have first : ∀ c ∈ (whole ++ (pointed fraction ++ ending)).head?, c ≠ '-' ∧ c ≠ '+' := by
        obtain ⟨d, more, rfl⟩ := List.exists_cons_of_ne_nil nonempty
        simpa using ne_sign_of_isDigit (all d List.mem_cons_self)
      rw [read, readSign_of_mem signed first]
      dsimp only
      rw [taken, dropped, readFraction_pointed behind ends.isExponent]
      dsimp only
      rw [if_neg (by simp [nonempty]), readExponent_of_writes ends, Option.map_some]

/-! ## The characters of a literal -/

/-- Whether a character may stand in a literal. -/
def isPart (c : Char) : Bool :=
  isDigit c || ['-', '+', '.', 'e', 'E'].contains c

theorem toNat_of_isDigit {c : Char} (digit : isDigit c = true) : 48 ≤ c.toNat ∧ c.toNat ≤ 57 := by
  rw [isDigit, Bool.and_eq_true, decide_eq_true_eq, decide_eq_true_eq] at digit
  exact digit

theorem isBlank_of_isPart {c : Char} (part : isPart c = true) : Text.isBlank c = false := by
  rw [isPart, Bool.or_eq_true, List.contains_iff_mem] at part
  rcases part with digit | mark
  · have bounds := toNat_of_isDigit digit
    simp only [Text.isBlank, Bool.or_eq_false_iff, Bool.and_eq_false_imp, decide_eq_true_eq,
      decide_eq_false_iff_not, beq_eq_false_iff_ne]
    omega
  · have marks : ['-', '+', '.', 'e', 'E'].all (!Text.isBlank ·) = true := by decide
    simpa using List.all_eq_true.1 marks c mark

theorem isPart_of_mem_sign {negative : Bool} {sign : List Char}
    (signed : sign ∈ signTexts negative) : ∀ c ∈ sign, isPart c = true := by
  have all : (signTexts negative).all (·.all isPart) = true := by cases negative <;> decide
  exact List.all_eq_true.1 (List.all_eq_true.1 all sign signed)

theorem isPart_of_isDigit {c : Char} (digit : isDigit c = true) : isPart c = true :=
  Bool.or_eq_true_iff.2 (.inl digit)

theorem isPart_of_allDigits {ds : List Char} (all : AllDigits ds) : ∀ c ∈ ds, isPart c = true :=
  fun c member => isPart_of_isDigit (all c member)

theorem IsExponent.isPart_of_mem (ends : IsExponent cs) : ∀ c ∈ cs, isPart c = true := by
  cases ends with
  | absent => simp
  | present marked signed all nonempty =>
      obtain ⟨negative, signed⟩ := mem_signTexts.1 signed
      refine List.forall_mem_cons.2 ⟨?_, List.forall_mem_append.2
        ⟨isPart_of_mem_sign signed, isPart_of_allDigits all⟩⟩
      rcases marked with rfl | rfl <;> decide

theorem IsLiteral.isPart_of_mem (literal : IsLiteral cs) : ∀ c ∈ cs, isPart c = true := by
  cases literal with
  | whole signed all nonempty ends =>
      obtain ⟨negative, signed⟩ := mem_signTexts.1 signed
      simp only [List.forall_mem_append]
      exact ⟨isPart_of_mem_sign signed, isPart_of_allDigits all, ends.isPart_of_mem⟩
  | point signed all behind nonempty ends =>
      obtain ⟨negative, signed⟩ := mem_signTexts.1 signed
      simp only [List.forall_mem_append, List.forall_mem_cons]
      exact ⟨isPart_of_mem_sign signed, isPart_of_allDigits all, by decide,
        isPart_of_allDigits behind, ends.isPart_of_mem⟩

theorem Writes.isLiteral {l : Literal} (written : l.Writes cs) : IsLiteral cs := by
  rw [← isSome_read_iff, read_of_writes written, Option.isSome_some]

theorem Writes.isPart_of_mem {l : Literal} (written : l.Writes cs) : ∀ c ∈ cs, isPart c = true :=
  written.isLiteral.isPart_of_mem

theorem Writes.not_mem {l : Literal} (written : l.Writes cs) {c : Char}
    (other : isPart c = false) : c ∉ cs := fun member => by
  simpa [other] using written.isPart_of_mem c member

theorem Writes.ne_nil {l : Literal} (written : l.Writes cs) : cs ≠ [] := by
  cases written with
  | parts signed all nonempty behind ends => simp [nonempty]

end Literal

/-! ## Cells -/

/-- A text that is blank or, without the blanks at its ends, the word for infinity or a literal. -/
def IsCellNumber (cs : List Char) : Prop :=
  Text.trim cs = [] ∨ (∃ sign ∈ [[], ['-'], ['+']], Text.trim cs = sign ++ "Infinity".toList) ∨
    Literal.IsLiteral (Text.trim cs)

instance (cs : List Char) : Decidable (IsCellNumber cs) :=
  inferInstanceAs (Decidable (_ ∨ _ ∨ _))

/-- A text that is not written as a number is read as not-a-number. -/
theorem readCell_of_not_isCellNumber {cs : List Char} (other : ¬ IsCellNumber cs) :
    readCell cs = nan := by
  obtain ⟨blank, word, literal⟩ : ¬ Text.trim cs = [] ∧ (¬ ∃ sign ∈ [[], ['-'], ['+']],
      Text.trim cs = sign ++ "Infinity".toList) ∧ ¬ Literal.IsLiteral (Text.trim cs) := by
    simpa only [IsCellNumber, not_or] using other
  have unread : Literal.read (Text.trim cs) = none := by
    rw [← Literal.isSome_read_iff] at literal
    simpa using literal
  rw [readCell, if_neg (by simpa using blank), if_neg, if_neg, readLiteral, unread]
  · rfl
  · exact fun same => word ⟨['-'], by simp, same⟩
  · rintro (same | same)
    · exact word ⟨[], by simp, same⟩
    · exact word ⟨['+'], by simp, same⟩

/-- **A cell with the text of a literal holds its number.** -/
theorem readCell_of_writes {l : Literal} {cs : List Char} (written : l.Writes cs) :
    readCell cs = l.toFloat := by
  have solid : Text.trim cs = cs := Text.trim_eq_self_of_solid fun c member =>
    Literal.isBlank_of_isPart (written.isPart_of_mem c member)
  -- the word for infinity has a letter that no literal has
  have other {word : List Char} (letter : 'I' ∈ word) : cs ≠ word := by
    rintro rfl
    exact written.not_mem (by decide) letter
  rw [readCell, solid, if_neg (by simp [written.ne_nil]), if_neg, if_neg (other (by decide)),
    readLiteral, Literal.read_of_writes written]
  · rfl
  · exact not_or.2 ⟨other (by decide), other (by decide)⟩

end Infographic.Number
