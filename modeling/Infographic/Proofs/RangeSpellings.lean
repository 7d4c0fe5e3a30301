/-
# Infographic.Proofs.RangeSpellings -- the ways to write a range

Between the ends of a range stand two points, the word `to` between spaces, a semicolon or any blank
character.  The separators are tried one after the other on the whole text, so a spelling is read
right only if no earlier separator is found in it and the one it has is found at its place.  For two
literals that is so in every case (`separators_agree`): a point of a literal is followed by a digit,
so no two points meet except between the ends, and no literal holds a blank, a semicolon or the
letters of the word.
-/
import Infographic.Directive.Range
import Infographic.Proofs.CellNumerals
import Infographic.Proofs.RoundedNumerals
import Infographic.Proofs.TextPieces

namespace Infographic

set_option autoImplicit false

open Infographic.Number (isDigit readCell AllDigits Literal Rounds)

/-! ## Points in literals -/

namespace Number.Literal

variable {l : Literal} {cs before after : List Char}

/-- Behind a point stands a digit. -/
def Follows (c d : Char) : Prop := c = '.' → isDigit d = true

theorem isChain_of_not_mem (none : '.' ∉ cs) : cs.IsChain Follows := by
  induction cs with
  | nil => exact .nil
  | cons c cs ih =>
      rw [List.mem_cons, not_or] at none
      exact List.isChain_cons.2 ⟨fun _ _ point => absurd point.symm none.1, ih none.2⟩

theorem isChain_append (first : before.IsChain Follows) (second : after.IsChain Follows)
    (last : ∀ c ∈ before.getLast?, c ≠ '.') : (before ++ after).IsChain Follows :=
  List.isChain_append.2 ⟨first, second, fun c ends _ _ point => absurd point (last c ends)⟩

/-- Points that are followed by digits do not meet. -/
theorem not_points_of_isChain (chain : cs.IsChain Follows) : ¬ "..".toList <:+: cs := by
  intro inside
  have pair : ['.', '.'].IsChain Follows := chain.infix inside
  exact absurd ((List.isChain_cons.1 pair).1 '.' rfl rfl) (by decide)

theorem not_point_of_all (all : AllDigits cs) : '.' ∉ cs := fun member =>
  absurd (all '.' member) (by decide)

theorem not_point_of_sign {negative : Bool} {sign : List Char}
    (signed : sign ∈ signTexts negative) : '.' ∉ sign := by
  have free : (signTexts negative).all (!·.contains '.') = true := by cases negative <;> decide
  simpa using List.all_eq_true.1 free sign signed

theorem WritesExponent.not_point {exponent : ℤ} (ends : WritesExponent exponent cs) :
    '.' ∉ cs := by
  cases ends with
  | absent => exact List.not_mem_nil
  | present marked signed all nonempty =>
      have mark : ∀ c, c = 'e' ∨ c = 'E' → '.' ≠ c := by rintro c (rfl | rfl) <;> decide
      rw [List.mem_cons, List.mem_append]
      rintro (here | sign | digits)
      · exact mark _ marked here
      · exact not_point_of_sign signed sign
      · exact not_point_of_all all digits

/-- The point of a literal is followed by a digit. -/
theorem Writes.isChain (written : l.Writes cs) : cs.IsChain Follows := by
  cases written with
  | @parts negative exponent sign whole fraction ending signed all nonempty behind ends =>
      have later : (pointed fraction ++ ending).IsChain Follows := by
        unfold pointed
        split
        · exact isChain_of_not_mem ends.not_point
        · obtain ⟨d, more, rfl⟩ := List.exists_cons_of_ne_nil ‹fraction ≠ []›
          have digits : '.' ∉ (d :: more) ++ ending := by
            rw [List.mem_append]
            exact not_or.2 ⟨not_point_of_all behind, ends.not_point⟩
          refine List.isChain_cons.2 ⟨fun c first _ => ?_, isChain_of_not_mem digits⟩
          obtain rfl : d = c := Option.some.inj first
          exact behind d List.mem_cons_self
      have free : '.' ∉ sign ++ whole := by
        rw [List.mem_append]
        exact not_or.2 ⟨not_point_of_sign signed, not_point_of_all all⟩
      rw [← List.append_assoc]
      refine isChain_append (isChain_of_not_mem free) later ?_
      rintro c last rfl
      exact free (List.mem_of_mem_getLast? last)

/-- A literal does not end with its point. -/
theorem Writes.not_point_of_getLast? (written : l.Writes cs) : ∀ c ∈ cs.getLast?, c ≠ '.' := by
  cases written with
  | @parts negative exponent sign whole fraction ending signed all nonempty behind ends =>
      have inside : ∀ c ∈ (pointed fraction).getLast?, c ∈ fraction := by
        unfold pointed
        split
        · simp
        · rename_i some
          rw [List.getLast?_cons_of_ne_nil some]
          exact fun c last => List.mem_of_mem_getLast? last
      rintro c last rfl
      simp only [List.getLast?_append, Option.mem_def, Option.or_eq_some_iff] at last
      rcases last with ((last | ⟨-, last⟩) | ⟨-, last⟩) | ⟨-, last⟩
      · exact ends.not_point (List.mem_of_mem_getLast? last)
      · exact not_point_of_all behind (inside '.' last)
      · exact not_point_of_all all (List.mem_of_mem_getLast? last)
      · exact not_point_of_sign signed (List.mem_of_mem_getLast? last)

end Number.Literal

/-! ## Separators -/

namespace Directive.Range

/-- A blank character, or an underscore in its place. -/
def IsGap (c : Char) : Prop := Text.isBlank c = true ∨ c = '_'

/-- What may stand between the ends of a range. -/
inductive IsSeparator : List Char → Prop
  | points : IsSeparator "..".toList
  | word {left right : Char} (before : left = ' ' ∨ left = '_')
      (behind : right = ' ' ∨ right = '_') : IsSeparator [left, 't', 'o', right]
  | semicolon : IsSeparator ";".toList
  | gap {c : Char} (gap : IsGap c) : IsSeparator [c]

/-- Underscores are read as spaces. -/
def spaced (c : Char) : Char := if c = '_' then ' ' else c

variable {cs : List Char}

theorem ofText_eq (cs : List Char) : ofText cs = ofSpaced (Text.trim (cs.map spaced)) :=
  rfl

theorem map_spaced (none : '_' ∉ cs) : cs.map spaced = cs := by
  have same : ∀ c ∈ cs, spaced c = id c := by
    rintro c member
    refine if_neg ?_
    rintro rfl
    exact none member
  rw [List.map_congr_left same, List.map_id]

theorem isBlank_spaced {c : Char} (gap : IsGap c) : Text.isBlank (spaced c) = true := by
  rcases gap with blank | rfl
  · unfold spaced
    split
    · decide
    · exact blank
  · decide

theorem IsSeparator.map_spaced (between : IsSeparator cs) :
    IsSeparator (cs.map spaced) ∧ '_' ∉ cs.map spaced := by
  cases between with
  | points => exact ⟨.points, by decide⟩
  | word before behind =>
      have space {c : Char} (gap : c = ' ' ∨ c = '_') : spaced c = ' ' := by
        rcases gap with rfl | rfl <;> rfl
      rw [List.map_cons, space before, List.map_cons, List.map_cons, List.map_cons, space behind]
      exact ⟨.word (.inl rfl) (.inl rfl), by decide⟩
  | semicolon => exact ⟨.semicolon, by decide⟩
  | gap gap =>
      have blank := isBlank_spaced gap
      refine ⟨.gap (.inl blank), fun member => ?_⟩
      rw [← List.mem_singleton.1 member] at blank
      exact absurd blank (by decide)

/-! ## Places of separators -/

variable {a b : Literal} {low high separator front back : List Char}

section

variable (first : a.Writes low) (second : b.Writes high)

include first second

theorem not_mem_spelled {c : Char} (other : Literal.isPart c = false) (missing : c ∉ separator) :
    c ∉ low ++ (separator ++ high) := by
  simp only [List.mem_append, not_or]
  exact ⟨first.not_mem other, missing, second.not_mem other⟩

theorem cutAt_points_eq_none (missing : '.' ∉ separator) :
    Text.cutAt "..".toList (low ++ (separator ++ high)) = none := by
  have later : (separator ++ high).IsChain Literal.Follows := by
    refine Literal.isChain_append (Literal.isChain_of_not_mem missing) second.isChain ?_
    rintro c last rfl
    exact missing (List.mem_of_mem_getLast? last)
  exact Text.cutAt_eq_none_of_free (Literal.not_points_of_isChain
    (Literal.isChain_append first.isChain later first.not_point_of_getLast?))

theorem cutAt_word_eq_none (missing : 't' ∉ separator) :
    Text.cutAt " to ".toList (low ++ (separator ++ high)) = none :=
  Text.cutAt_eq_none (c := 't') (by decide) (not_mem_spelled first second (by decide) missing)

/-- **Between two literals each separator is found at its place.** -/
theorem ofSpaced_spelled (between : IsSeparator separator) (solid : '_' ∉ separator) :
    ofSpaced (low ++ (separator ++ high)) = .pair (readCell low) (readCell high) := by
  unfold ofSpaced separators
  cases between with
  | points =>
      have free : ¬ "..".toList <:+: low ++ "..".toList.dropLast :=
        Literal.not_points_of_isChain
          (Literal.isChain_append first.isChain (.singleton '.') first.not_point_of_getLast?)
      rw [List.findSome?_cons, Text.cutAt_append free]
  | @word left right before behind =>
      simp only [List.mem_cons, not_or] at solid
      obtain rfl := before.resolve_right (Ne.symm solid.1)
      obtain rfl := behind.resolve_right (Ne.symm solid.2.2.2.1)
      -- the word has two spaces, and there is only one before its last character
      have free : ¬ " to ".toList <:+: low ++ " to ".toList.dropLast := by
        intro inside
        have most := inside.sublist.count_le ' '
        rw [List.count_append, List.count_eq_zero.2 (first.not_mem (by decide))] at most
        exact absurd most (by decide)
      have found : Text.cutAt " to ".toList (low ++ ([' ', 't', 'o', ' '] ++ high)) =
          some (low, high) := Text.cutAt_append free
      rw [List.findSome?_cons, cutAt_points_eq_none first second (by decide),
        List.findSome?_cons, found]
  | semicolon =>
      have missing : ';' ∉ low := first.not_mem (by decide)
      have free : ¬ ";".toList <:+: low ++ ";".toList.dropLast := fun inside =>
        missing (by simpa using inside.subset (List.mem_singleton_self ';'))
      rw [List.findSome?_cons, cutAt_points_eq_none first second (by decide),
        List.findSome?_cons, cutAt_word_eq_none first second (by decide),
        List.findSome?_cons, Text.cutAt_append free]
  | @gap c gap =>
      have blank : Text.isBlank c = true :=
        gap.resolve_right fun same => solid (List.mem_singleton.2 same.symm)
      have other {d : Char} (full : Text.isBlank d = false) : d ∉ [c] := fun member => by
        rw [List.mem_singleton.1 member, blank] at full
        cases full
      have semicolon : Text.cutAt ";".toList (low ++ ([c] ++ high)) = none :=
        Text.cutAt_eq_none (List.mem_singleton_self ';')
          (not_mem_spelled first second (by decide) (other (by decide)))
      have found : Text.cutWhere Text.isBlank (low ++ ([c] ++ high)) = some (low, high) :=
        Text.cutWhere_append
          (fun d member => Literal.isBlank_of_isPart (first.isPart_of_mem d member)) blank
      rw [List.findSome?_cons, cutAt_points_eq_none first second (other (by decide)),
        List.findSome?_cons, cutAt_word_eq_none first second (other (by decide)),
        List.findSome?_cons, semicolon, List.findSome?_nil, found]

/-! ## Spellings -/

/-- The blanks around a range are dropped, and no others. -/
theorem trim_spelled (before : ∀ c ∈ front, Text.isBlank c = true)
    (behind : ∀ c ∈ back, Text.isBlank c = true) :
    Text.trim (front ++ ((low ++ (separator ++ high)) ++ back)) = low ++ (separator ++ high) := by
  refine Text.trimWhere_append before behind ?_ ?_
  · obtain ⟨c, more, rfl⟩ := List.exists_cons_of_ne_nil first.ne_nil
    intro d start
    obtain rfl : c = d := Option.some.inj start
    exact Literal.isBlank_of_isPart (first.isPart_of_mem c List.mem_cons_self)
  · intro c last
    rw [List.getLast?_append_of_ne_nil _ (by simp [second.ne_nil]),
      List.getLast?_append_of_ne_nil _ second.ne_nil] at last
    exact Literal.isBlank_of_isPart (second.isPart_of_mem c (List.mem_of_mem_getLast? last))

/-- **However the ends of a range are separated, they are read as the same two numbers.** -/
theorem separators_agree (between : IsSeparator separator) (around : ∀ c ∈ front ++ back, IsGap c) :
    ofText (front ++ (low ++ (separator ++ (high ++ back)))) =
        .pair (readCell low) (readCell high) ∧
      readCell low = Number.withSign a.negative a.magnitude ∧ Rounds a.value a.magnitude ∧
      readCell high = Number.withSign b.negative b.magnitude ∧ Rounds b.value b.magnitude := by
  refine ⟨?_, Number.readCell_of_writes first, a.rounds_magnitude,
    Number.readCell_of_writes second, b.rounds_magnitude⟩
  obtain ⟨between, solid⟩ := between.map_spaced
  have outside {cs : List Char} (gaps : ∀ c ∈ cs, IsGap c) :
      ∀ c ∈ cs.map spaced, Text.isBlank c = true := by
    rw [List.forall_mem_map]
    exact fun c member => isBlank_spaced (gaps c member)
  obtain ⟨before, behind⟩ := List.forall_mem_append.1 around
  have spelled : (front ++ (low ++ (separator ++ (high ++ back)))).map spaced =
      front.map spaced ++ ((low ++ (separator.map spaced ++ high)) ++ back.map spaced) := by
    simp only [List.map_append, map_spaced (first.not_mem (c := '_') (by decide)),
      map_spaced (second.not_mem (c := '_') (by decide)), List.append_assoc]
  rw [ofText_eq, spelled, trim_spelled first second (outside before) (outside behind),
    ofSpaced_spelled first second between solid]

end

/-- A range with underscores for spaces, between blanks. -/
theorem separators_agree_word :
    Literal.Writes ⟨true, ['2'], ['5'], 1⟩ "-2.5e1".toList ∧
      Literal.Writes ⟨false, "300".toList, [], 0⟩ "+300".toList ∧ IsSeparator "_to_".toList ∧
      (∀ c ∈ [' ', '\t'] ++ ['_'], IsGap c) ∧
      ofText " \t-2.5e1_to_+300_".toList =
        .pair (readCell "-2.5e1".toList) (readCell "+300".toList) ∧
      Rounds (Literal.value ⟨true, ['2'], ['5'], 1⟩)
        (Literal.magnitude ⟨true, ['2'], ['5'], 1⟩) := by
  have ends : Literal.WritesExponent 1 ['e', '1'] :=
    @Literal.WritesExponent.present 'e' false [] ['1'] (.inl rfl) (by decide) (by decide)
      (by decide)
  have first : Literal.Writes ⟨true, ['2'], ['5'], 1⟩ "-2.5e1".toList :=
    @Literal.Writes.parts true 1 ['-'] ['2'] ['5'] ['e', '1'] (by decide) (by decide) (by decide)
      (by decide) ends
  have second : Literal.Writes ⟨false, "300".toList, [], 0⟩ "+300".toList :=
    @Literal.Writes.parts false 0 ['+'] "300".toList [] [] (by decide) (by decide) (by decide)
      (by decide) .absent
  have between : IsSeparator "_to_".toList := .word (.inr rfl) (.inr rfl)
  have around : ∀ c ∈ [' ', '\t'] ++ ['_'], IsGap c := by
    simp only [List.cons_append, List.nil_append, List.mem_cons, List.not_mem_nil, or_false]
    rintro c (rfl | rfl | rfl)
    · exact .inl (by decide)
    · exact .inl (by decide)
    · exact .inr rfl
  obtain ⟨read, -, rounds, -⟩ := separators_agree first second between around
  exact ⟨first, second, between, around, read, rounds⟩

end Directive.Range

end Infographic
