/-
# Infographic.Proofs.AcceptedNumerals -- the texts that cells are numbers for

The text of a cell is a number exactly if it is blank or, without the blanks at its ends, the word
for infinity or a decimal literal (`cell_numbers`).  A reader of floats knows more spellings: the
words for the special values, in any letter case.  Each of these words has a letter that no literal
has, so literals are what such a reader accepts of the texts without foreign letters
(`Literal.isLiteral_iff_readExtended`).  A literal is never read as not-a-number: it stands for the
nearest float, or for an infinity if it is beyond all of them.
-/
import Infographic.Proofs.CellNumerals
import Infographic.Proofs.RoundedNumerals
import Infographic.Proofs.WholeNumbers

namespace Infographic.Number

set_option autoImplicit false

/-! ## Foreign letters -/

/-- A letter that no literal has. -/
def isForeign (c : Char) : Bool :=
  c.isAlpha && c != 'e' && c != 'E'

theorem isForeign_of_toLower {c : Char} (letter : c.toLower = 'n') : isForeign c = true := by
  unfold Char.toLower at letter
  split at letter
  · rename_i upper
    have large : c.val + 32 = 110 := congrArg Char.val letter
    have same : c = 'N' := by
      apply Char.ext
      show c.val = 110 - 32
      rw [← large, UInt32.add_sub_cancel]
    rw [same]
    decide
  · rw [letter]
    decide

/-- The words for the special values have a foreign letter, in any letter case. -/
theorem not_special_of_free {cs : List Char} (free : ∀ c ∈ cs, isForeign c = false)
    (word : String) (letter : 'n' ∈ word.toList) :
    String.ofList (cs.map Char.toLower) ≠ word := by
  intro same
  rw [← same, String.toList_ofList] at letter
  obtain ⟨c, member, lowered⟩ := List.mem_map.1 letter
  have foreign := isForeign_of_toLower lowered
  rw [free c member] at foreign
  exact Bool.false_ne_true foreign

/-- Without foreign letters there are only literals to be read. -/
theorem readExtended_of_free {cs : List Char} (free : ∀ c ∈ cs, isForeign c = false) :
    readExtended cs = readLiteral cs := by
  obtain ⟨sign, -, cut⟩ := Literal.exists_readSign cs
  have unsigned : ∀ c ∈ (Literal.readSign cs).2, isForeign c = false := by
    intro c member
    apply free
    rw [cut]
    exact List.mem_append_right sign member
  have inf := not_special_of_free unsigned "inf" (by decide)
  have infinity := not_special_of_free unsigned "infinity" (by decide)
  have nan := not_special_of_free unsigned "nan" (by decide)
  unfold readExtended
  dsimp only
  rw [if_neg (not_or.2 ⟨inf, infinity⟩), if_neg nan]

namespace Literal

variable {cs : List Char}

theorem isForeign_of_isPart {c : Char} (part : isPart c = true) : isForeign c = false := by
  rw [isPart, Bool.or_eq_true, List.contains_iff_mem] at part
  rcases part with digit | mark
  · have bounds := toNat_of_isDigit digit
    have other : c.isAlpha = false := by
      refine Bool.eq_false_iff.2 fun letter => ?_
      have codes := Text.toNat_of_isAlpha letter
      omega
    rw [isForeign, other, Bool.false_and, Bool.false_and]
  · have marks : ['-', '+', '.', 'e', 'E'].all (!isForeign ·) = true := by decide
    simpa using List.all_eq_true.1 marks c mark

/-- **Literals are the floats without foreign letters.** -/
theorem isLiteral_iff_readExtended :
    IsLiteral cs ↔ (∀ c ∈ cs, isForeign c = false) ∧ (readExtended cs).isSome = true := by
  have read (free : ∀ c ∈ cs, isForeign c = false) :
      (readExtended cs).isSome = true ↔ IsLiteral cs := by
    rw [readExtended_of_free free, readLiteral, Option.isSome_map, isSome_read_iff]
  constructor
  · intro literal
    have free : ∀ c ∈ cs, isForeign c = false := fun c member =>
      isForeign_of_isPart (literal.isPart_of_mem c member)
    exact ⟨free, (read free).2 literal⟩
  · rintro ⟨free, accepted⟩
    exact (read free).1 accepted

end Literal

/-! ## Numbers -/

/-- A rounded number with a sign is a number. -/
theorem Rounds.isNaN_withSign {v : ℚ} {z : Float} (rounds : Rounds v z) (negative : Bool) :
    (withSign negative z).isNaN = false := by
  by_cases below : nearest v < 2 ^ 1024
  · obtain ⟨finite, -⟩ := rounds.near below
    obtain ⟨signed, -⟩ := toRat_withSign finite negative
    exact isNaN_eq_false_of_isFinite signed
  · rw [rounds.above (not_lt.1 below)]
    cases negative <;> decide +kernel

/-- A text that is written as a number is read as one. -/
theorem isNaN_readCell_of_isCellNumber {cs : List Char} (number : IsCellNumber cs) :
    (readCell cs).isNaN = false := by
  rw [readCell]
  split
  · decide +kernel
  · rename_i full
    split
    · decide +kernel
    · rename_i positive
      split
      · decide +kernel
      · rename_i negative
        rcases number with blank | ⟨sign, signed, word⟩ | literal
        · exact absurd (List.isEmpty_iff.2 blank) full
        · simp only [List.mem_cons, List.not_mem_nil, or_false] at signed
          rcases signed with rfl | rfl | rfl
          · exact absurd (.inl word) positive
          · exact absurd word negative
          · exact absurd (.inr word) positive
        · obtain ⟨l, read⟩ := Option.isSome_iff_exists.1 (Literal.isSome_read_iff.2 literal)
          rw [readLiteral, read]
          exact l.rounds_magnitude.isNaN_withSign l.negative

/-- **Which texts are numbers.**  The text of a cell is read as a number exactly if it is blank or,
without the blanks at its ends, the word for infinity or a decimal literal.  Literals are what a
reader of floats accepts where there is no letter beside those of an exponent. -/
theorem cell_numbers (cs : List Char) :
    ((readCell cs).isNaN = false ↔ IsCellNumber cs) ∧
      (Literal.IsLiteral (Text.trim cs) ↔
        (∀ c ∈ Text.trim cs, isForeign c = false) ∧
          (readExtended (Text.trim cs)).isSome = true) := by
  refine ⟨⟨fun number => ?_, isNaN_readCell_of_isCellNumber⟩, Literal.isLiteral_iff_readExtended⟩
  by_contra other
  rw [readCell_of_not_isCellNumber other] at number
  exact absurd number (by decide +kernel)

/-- Points at either end are accepted; other notations, words and marks alone are not. -/
example :
    (∀ s ∈ ["", " \t", "-Infinity", "+.5", "1.e3", "1E-2"], IsCellNumber s.toList) ∧
      ∀ s ∈ ["inf", "NaN", "infinity", "0x1F", "1_000", "+", ".", "e5", "1e", "- 1"],
        ¬ IsCellNumber s.toList := by
  decide

end Infographic.Number
