/-
# Infographic.Text.Blank -- blank characters and trimming

A character is blank when Unicode gives it the property `White_Space`; the
table below lists the ranges of that property.  Trimming removes a run of
unwanted characters from both ends of a text and leaves its inside alone.
-/

namespace Infographic.Text

set_option autoImplicit false

/-- The characters with the Unicode property `White_Space`. -/
def isBlank (c : Char) : Bool :=
  let n := c.toNat
  (0x09 ≤ n && n ≤ 0x0D) || n == 0x20 || n == 0x85 || n == 0xA0 || n == 0x1680 ||
    (0x2000 ≤ n && n ≤ 0x200A) || n == 0x2028 || n == 0x2029 || n == 0x202F ||
    n == 0x205F || n == 0x3000

/-- Drop the characters satisfying `p` from the end of a text. -/
def dropEndWhile (p : Char → Bool) (cs : List Char) : List Char :=
  (cs.reverse.dropWhile p).reverse

/-- Drop the characters satisfying `p` from both ends of a text. -/
def trimWhere (p : Char → Bool) (cs : List Char) : List Char :=
  dropEndWhile p (cs.dropWhile p)

/-- Drop blank characters from both ends of a text. -/
def trim (cs : List Char) : List Char :=
  trimWhere isBlank cs

/-- Blank characters dropped from both ends of a string. -/
def trimmed (s : String) : String :=
  String.ofList (trim s.toList)

/-! ## What trimming leaves -/

/-- Dropping from the end only removes a run of unwanted characters there. -/
theorem dropEndWhile_append_takeWhile (p : Char → Bool) (cs : List Char) :
    dropEndWhile p cs ++ (cs.reverse.takeWhile p).reverse = cs := by
  rw [dropEndWhile, ← List.reverse_append, List.takeWhile_append_dropWhile, List.reverse_reverse]

/-- A text without unwanted characters at its ends is its own trim. -/
theorem trimWhere_eq_self {p : Char → Bool} {cs : List Char}
    (first : ∀ c ∈ cs.head?, p c = false) (last : ∀ c ∈ cs.getLast?, p c = false) :
    trimWhere p cs = cs := by
  have front : cs.dropWhile p = cs := by
    cases cs with
    | nil => rfl
    | cons c rest => simp [first c (by simp)]
  rw [trimWhere, front, dropEndWhile]
  cases h : cs.reverse with
  | nil => simp_all
  | cons c rest =>
      have : cs.getLast? = some c := by rw [← List.head?_reverse, h]; rfl
      rw [List.dropWhile_cons, last c (by simp [this])]
      simp [← h]

end Infographic.Text
