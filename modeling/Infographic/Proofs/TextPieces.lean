/-
# Infographic.Proofs.TextPieces -- trimmed texts and their pieces

What is left of a text after trimming is part of it, does not begin or end with an unwanted
character, and is its own trim.  A text that is put together from pieces with a separator
behind each is cut into these pieces again, as long as none of them holds the separator.
-/
import Infographic.Text.Blank
import Infographic.Text.Cut

namespace Infographic.Text

set_option autoImplicit false

variable {p : Char → Bool} {cs : List Char}

/-! ## Letters -/

theorem toNat_of_isAlpha {c : Char} (letter : c.isAlpha = true) :
    65 ≤ c.toNat ∧ c.toNat ≤ 90 ∨ 97 ≤ c.toNat ∧ c.toNat ≤ 122 := by
  change (decide (65 ≤ c.val ∧ c.val ≤ 90) ||
    (decide (97 ≤ c.val) && decide (c.val ≤ 122))) = true at letter
  rw [Bool.or_eq_true, Bool.and_eq_true, decide_eq_true_eq, decide_eq_true_eq,
    decide_eq_true_eq] at letter
  exact letter

/-! ## Trimming -/

theorem trimWhere_cons {c : Char} (unwanted : p c = true) :
    trimWhere p (c :: cs) = trimWhere p cs := by
  rw [trimWhere, List.dropWhile_cons_of_pos unwanted, trimWhere]

theorem dropEndWhile_initial (p : Char → Bool) (cs : List Char) : dropEndWhile p cs <+: cs :=
  ⟨_, dropEndWhile_append_takeWhile p cs⟩

theorem trimWhere_sublist (p : Char → Bool) (cs : List Char) : (trimWhere p cs).Sublist cs :=
  (dropEndWhile_initial p _).sublist.trans (List.dropWhile_sublist p)

theorem mem_of_mem_trimWhere {c : Char} (member : c ∈ trimWhere p cs) : c ∈ cs :=
  (trimWhere_sublist p cs).subset member

theorem not_of_head?_dropWhile : ∀ c ∈ (cs.dropWhile p).head?, p c = false := by
  intro c first
  have kept := List.head?_dropWhile_not p cs
  rw [Option.mem_def.1 first] at kept
  simpa using kept

theorem dropWhile_of_head? (first : ∀ c ∈ cs.head?, p c = false) : cs.dropWhile p = cs := by
  cases cs with
  | nil => rfl
  | cons c cs => simp [first c rfl]

theorem takeWhile_of_head? (first : ∀ c ∈ cs.head?, p c = false) : cs.takeWhile p = [] := by
  cases cs with
  | nil => rfl
  | cons c cs => simp [first c rfl]

theorem not_of_head?_trimWhere : ∀ c ∈ (trimWhere p cs).head?, p c = false := by
  intro c first
  obtain ⟨rest, whole⟩ := dropEndWhile_initial p (cs.dropWhile p)
  refine @not_of_head?_dropWhile p cs c ?_
  rw [← whole, List.head?_append]
  rw [trimWhere] at first
  simp [Option.mem_def.1 first]

theorem not_of_getLast?_trimWhere : ∀ c ∈ (trimWhere p cs).getLast?, p c = false := by
  intro c last
  rw [trimWhere, dropEndWhile, List.getLast?_reverse] at last
  exact not_of_head?_dropWhile c last

/-- What is left after trimming is its own trim. -/
theorem trimWhere_trimWhere : trimWhere p (trimWhere p cs) = trimWhere p cs :=
  trimWhere_eq_self not_of_head?_trimWhere not_of_getLast?_trimWhere

/-- A character that is wanted is not trimmed. -/
theorem mem_trimWhere {c : Char} (member : c ∈ cs) (wanted : p c = false) : c ∈ trimWhere p cs := by
  have kept {cs : List Char} (member : c ∈ cs) : c ∈ cs.dropWhile p := by
    rw [← List.takeWhile_append_dropWhile (p := p) (l := cs), List.mem_append] at member
    refine member.resolve_left fun dropped => ?_
    simpa [wanted] using List.all_eq_true.1 List.all_takeWhile c dropped
  rw [trimWhere, dropEndWhile, List.mem_reverse]
  exact kept (List.mem_reverse.2 (kept member))

/-- Unwanted characters around a text that does not begin or end with one are dropped. -/
theorem trimWhere_append {front back : List Char} (before : ∀ c ∈ front, p c = true)
    (behind : ∀ c ∈ back, p c = true) (first : ∀ c ∈ cs.head?, p c = false)
    (last : ∀ c ∈ cs.getLast?, p c = false) : trimWhere p (front ++ (cs ++ back)) = cs := by
  rw [trimWhere, List.dropWhile_append_of_pos before]
  cases cs with
  | nil =>
      rw [List.nil_append, ← List.append_nil back, List.dropWhile_append_of_pos behind]
      rfl
  | cons c cs =>
      have stops : ∀ d ∈ (c :: cs).reverse.head?, p d = false := by
        rwa [List.head?_reverse]
      rw [List.cons_append, List.dropWhile_cons_of_neg (by simp [first c rfl]), ← List.cons_append,
        dropEndWhile, List.reverse_append,
        List.dropWhile_append_of_pos fun d member => behind d (List.mem_reverse.1 member),
        dropWhile_of_head? stops, List.reverse_reverse]

theorem trim_cons_space : trim (' ' :: cs) = trim cs :=
  trimWhere_cons (by decide)

/-- A text without blank characters is its own trim. -/
theorem trim_eq_self_of_solid (solid : ∀ c ∈ cs, isBlank c = false) : trim cs = cs :=
  trimWhere_eq_self (fun c first => solid c (List.mem_of_mem_head? first))
    fun c last => solid c (List.mem_of_mem_getLast? last)

/-! ## Cutting at separators -/

theorem splitAt_append_sep {sep : Char} {piece : List Char} (free : sep ∉ piece)
    (rest : List Char) : splitAt sep (piece ++ sep :: rest) = piece :: splitAt sep rest := by
  induction piece with
  | nil => simp [splitAt, splitWhere]
  | cons c piece ih =>
      rw [List.mem_cons, not_or] at free
      have other : (c == sep) = false := by simpa using Ne.symm free.1
      have tail := ih free.2
      rw [splitAt] at tail ⊢
      rw [List.cons_append, splitWhere, other, tail]
      rfl

theorem splitAt_cons_sep (sep : Char) (rest : List Char) :
    splitAt sep (sep :: rest) = [] :: splitAt sep rest :=
  splitAt_append_sep List.not_mem_nil rest

/-- A text without the separator is one piece. -/
theorem splitAt_of_not_mem {sep : Char} (free : sep ∉ cs) : splitAt sep cs = [cs] := by
  induction cs with
  | nil => rfl
  | cons c cs ih =>
      rw [List.mem_cons, not_or] at free
      have tail := ih free.2
      rw [splitAt] at tail ⊢
      rw [splitWhere, if_neg (by simpa using Ne.symm free.1), tail]

theorem splitAt_cons {sep c : Char} (other : c ≠ sep) (cs : List Char) :
    ∃ piece pieces, splitAt sep cs = piece :: pieces ∧
      splitAt sep (c :: cs) = (c :: piece) :: pieces := by
  rw [splitAt, splitAt]
  cases cut : splitWhere (· == sep) cs with
  | nil => exact absurd cut (splitWhere_ne_nil _ _)
  | cons piece pieces => exact ⟨piece, pieces, rfl, by simp [splitWhere, other, cut]⟩

theorem not_mem_of_mem_splitAt {sep : Char} {piece : List Char} (member : piece ∈ splitAt sep cs) :
    sep ∉ piece := fun inside => by
  simpa using not_sep_of_mem_splitWhere member sep inside

theorem mem_of_mem_splitWhere {sep : Char → Bool} {piece : List Char} {c : Char}
    (member : piece ∈ splitWhere sep cs) (inside : c ∈ piece) : c ∈ cs := by
  induction cs generalizing piece with
  | nil =>
      rw [splitWhere, List.mem_singleton] at member
      simp [member] at inside
  | cons d rest ih =>
      rw [splitWhere] at member
      split at member
      · rcases List.mem_cons.1 member with rfl | later
        · simp at inside
        · exact List.mem_cons_of_mem d (ih later inside)
      · split at member
        · rw [List.mem_singleton] at member
          exact List.mem_cons.2 (.inl (by simpa [member] using inside))
        · rename_i first others cut
          rcases List.mem_cons.1 member with rfl | later
          · rcases List.mem_cons.1 inside with rfl | inside
            · exact List.mem_cons_self
            · exact List.mem_cons_of_mem d (ih (by simp [cut]) inside)
          · exact List.mem_cons_of_mem d (ih (by simp [cut, later]) inside)

theorem join_cons_cons (sep piece next : List Char) (pieces : List (List Char)) :
    join sep (piece :: next :: pieces) = piece ++ (sep ++ join sep (next :: pieces)) := by
  rw [join, List.append_assoc]
  simp

theorem join_eq_intercalate (sep : List Char) (pieces : List (List Char)) :
    join sep pieces = sep.intercalate pieces := by
  induction pieces with
  | nil => rfl
  | cons piece rest ih =>
      cases rest with
      | nil => simp [join]
      | cons next more => rw [join_cons_cons, ih, List.intercalate_cons_cons, List.append_assoc]

/-- Whatever holds of the separator and of the pieces holds of what is joined. -/
theorem forall_mem_join {sep : List Char} {pieces : List (List Char)} {P : Char → Prop}
    (between : ∀ c ∈ sep, P c) (inside : ∀ piece ∈ pieces, ∀ c ∈ piece, P c) :
    ∀ c ∈ join sep pieces, P c := by
  induction pieces with
  | nil => simp [join]
  | cons piece rest ih =>
      have here := inside piece List.mem_cons_self
      have later := ih fun piece member => inside piece (List.mem_cons_of_mem _ member)
      cases rest with
      | nil => exact here
      | cons next more =>
          intro c member
          rw [join_cons_cons, List.mem_append, List.mem_append] at member
          rcases member with first | separator | last
          · exact here c first
          · exact between c separator
          · exact later c last

theorem cutWhere_append {sep : Char → Bool} {before after : List Char} {c : Char}
    (free : ∀ d ∈ before, sep d = false) (here : sep c = true) :
    cutWhere sep (before ++ c :: after) = some (before, after) := by
  induction before with
  | nil => simp [cutWhere, here]
  | cons d before ih =>
      have other := free d List.mem_cons_self
      have later := ih fun e member => free e (List.mem_cons_of_mem d member)
      simp [cutWhere, other, later]

/-- A cut at a word loses that word only. -/
theorem append_of_cutAt {word : List Char} {cut : List Char × List Char}
    (found : cutAt word cs = some cut) : cs = cut.1 ++ (word ++ cut.2) := by
  induction cs generalizing cut with
  | nil =>
      rw [cutAt] at found
      split at found
      · rename_i nothing
        cases found
        rw [List.isEmpty_iff.1 nothing]
        rfl
      · cases found
  | cons c rest ih =>
      rw [cutAt] at found
      split at found
      · rename_i after here
        cases found
        have begins : c :: rest = word ++ after := afterWord_eq_some_iff.1 here
        exact begins
      · obtain ⟨inner, later, rfl⟩ := Option.map_eq_some_iff.1 found
        rw [ih later]
        rfl

/-- A word that is not completed before its place is first found there. -/
theorem cutAt_append {word before after : List Char}
    (free : ¬ word <:+: before ++ word.dropLast) :
    cutAt word (before ++ (word ++ after)) = some (before, after) := by
  have nonempty : word ≠ [] := by
    rintro rfl
    exact free (List.nil_infix)
  induction before with
  | nil =>
      obtain ⟨c, rest, rfl⟩ := List.exists_cons_of_ne_nil nonempty
      have here : afterWord (c :: rest) (c :: (rest ++ after)) = some after :=
        afterWord_eq_some_iff.2 rfl
      rw [List.nil_append, List.cons_append, cutAt, here]
  | cons c before ih =>
      have later := ih fun inside => free (inside.trans (List.suffix_cons c _).isInfix)
      cases here : afterWord word (c :: (before ++ (word ++ after))) with
      | none => rw [List.cons_append, cutAt, here, later, Option.map_some]
      | some rest =>
          have begins : word <+: c :: (before ++ (word ++ after)) :=
            ⟨rest, (afterWord_eq_some_iff.1 here).symm⟩
          have initial : c :: before ++ word.dropLast <+: c :: (before ++ (word ++ after)) :=
            List.cons_prefix_cons.2 ⟨rfl, (List.prefix_append_right_inj before).2
              ((List.dropLast_prefix word).trans (List.prefix_append word after))⟩
          have fits : word.length ≤ (c :: before ++ word.dropLast).length := by
            have size := List.length_pos_iff.2 nonempty
            rw [List.length_append, List.length_cons, List.length_dropLast]
            omega
          exact absurd (List.prefix_of_prefix_length_le begins initial fits).isInfix free

theorem cutAt_eq_none_of_free {word : List Char} (free : ¬ word <:+: cs) :
    cutAt word cs = none := by
  rw [Option.eq_none_iff_forall_ne_some]
  intro cut found
  exact free ⟨cut.1, cut.2, by rw [List.append_assoc, ← append_of_cutAt found]⟩

/-- A word of which some character is missing is nowhere. -/
theorem cutAt_eq_none {word : List Char} {c : Char} (member : c ∈ word) (missing : c ∉ cs) :
    cutAt word cs = none :=
  cutAt_eq_none_of_free fun inside => missing (inside.subset member)

end Infographic.Text
