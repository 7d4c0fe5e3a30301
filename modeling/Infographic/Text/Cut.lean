/-
# Infographic.Text.Cut -- cutting a text at separators

`splitAt` cuts at every separator and keeps the empty pieces; `join` puts pieces
together again.  `cutWhere` and `cutAt` cut once, at the first separating character
or word.
-/

namespace Infographic.Text

set_option autoImplicit false

/-- The pieces of a text between the characters satisfying `sep`; a text without
such a character is one piece. -/
def splitWhere (sep : Char → Bool) : List Char → List (List Char)
  | [] => [[]]
  | c :: rest =>
      if sep c then [] :: splitWhere sep rest
      else
        match splitWhere sep rest with
        | [] => [[c]]
        | piece :: pieces => (c :: piece) :: pieces

/-- The pieces of a text between occurrences of one character. -/
def splitAt (sep : Char) (cs : List Char) : List (List Char) :=
  splitWhere (· == sep) cs

/-- What stands before and after the first character satisfying `sep`. -/
def cutWhere (sep : Char → Bool) : List Char → Option (List Char × List Char)
  | [] => none
  | c :: rest =>
      if sep c then some ([], rest)
      else (cutWhere sep rest).map fun cut => (c :: cut.1, cut.2)

/-- The rest of a text that begins with `word`. -/
def afterWord : List Char → List Char → Option (List Char)
  | [], cs => some cs
  | _ :: _, [] => none
  | w :: word, c :: cs => if w = c then afterWord word cs else none

/-- What stands before and after the first occurrence of `word`. -/
def cutAt (word : List Char) : List Char → Option (List Char × List Char)
  | [] => if word.isEmpty then some ([], []) else none
  | c :: rest =>
      match afterWord word (c :: rest) with
      | some after => some ([], after)
      | none => (cutAt word rest).map fun cut => (c :: cut.1, cut.2)

/-- Join pieces with a separator between neighbours. -/
def join (sep : List Char) : List (List Char) → List Char
  | [] => []
  | [piece] => piece
  | piece :: pieces => piece ++ sep ++ join sep pieces

theorem splitWhere_ne_nil (sep : Char → Bool) (cs : List Char) : splitWhere sep cs ≠ [] := by
  cases cs with
  | nil => simp [splitWhere]
  | cons c rest =>
      rw [splitWhere]
      split
      · simp
      · split <;> simp

/-- No piece holds a separator. -/
theorem not_sep_of_mem_splitWhere {sep : Char → Bool} {cs piece : List Char}
    (member : piece ∈ splitWhere sep cs) : ∀ c ∈ piece, sep c = false := by
  induction cs generalizing piece with
  | nil => simp [splitWhere] at member; simp [member]
  | cons c rest ih =>
      rw [splitWhere] at member
      split at member
      · rcases List.mem_cons.1 member with rfl | h
        · simp
        · exact ih h
      · rename_i hc
        split at member
        · simp only [List.mem_singleton] at member
          subst member
          simpa using hc
        · rename_i first others hs
          rcases List.mem_cons.1 member with rfl | h
          · intro d hd
            rcases List.mem_cons.1 hd with rfl | hd
            · simpa using hc
            · exact ih (by simp [hs]) d hd
          · exact ih (by simp [hs, h])

/-- A cut at a character loses that character only. -/
theorem append_of_cutWhere {sep : Char → Bool} {cs : List Char} {cut : List Char × List Char}
    (found : cutWhere sep cs = some cut) :
    ∃ c, sep c = true ∧ cs = cut.1 ++ c :: cut.2 ∧ ∀ d ∈ cut.1, sep d = false := by
  induction cs generalizing cut with
  | nil => simp [cutWhere] at found
  | cons c rest ih =>
      rw [cutWhere] at found
      split at found
      · rename_i hc
        cases found
        exact ⟨c, hc, rfl, by simp⟩
      · rename_i hc
        obtain ⟨inner, hi, rfl⟩ := Option.map_eq_some_iff.1 found
        obtain ⟨d, hd, rfl, free⟩ := ih hi
        refine ⟨d, hd, rfl, fun e he => ?_⟩
        rcases List.mem_cons.1 he with rfl | he
        · simpa using hc
        · exact free e he

theorem cutWhere_eq_none_iff {sep : Char → Bool} {cs : List Char} :
    cutWhere sep cs = none ↔ ∀ c ∈ cs, sep c = false := by
  induction cs with
  | nil => simp [cutWhere]
  | cons c rest ih =>
      rw [cutWhere]
      split
      · rename_i hc; simp [hc]
      · rename_i hc; simp [ih, hc]

theorem afterWord_eq_some_iff {word cs after : List Char} :
    afterWord word cs = some after ↔ cs = word ++ after := by
  induction word generalizing cs with
  | nil => simp [afterWord]
  | cons w word ih =>
      cases cs with
      | nil => simp [afterWord]
      | cons c cs =>
          rw [afterWord]
          split
          · rename_i h; subst h; simp [ih]
          · rename_i h; simp [Ne.symm h]

end Infographic.Text
