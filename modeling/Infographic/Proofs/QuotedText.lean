/-
# Infographic.Proofs.QuotedText -- quoted strings are read back

What `quote` writes for a string is read as that string, whatever characters it holds and
whatever follows the closing quote: no character of a string ends it early.
-/
import Infographic.Json.Value
import Mathlib.Tactic.SplitIfs

namespace Infographic.Json

set_option autoImplicit false

variable {c : Char} {cs rest : List Char}

/-! ## Characters -/

theorem hexValue?_hexDigit {n : Nat} (small : n < 16) : hexValue? (hexDigit n) = some n := by
  revert n
  decide

/-- What one character inside quotes is read as: itself, or a control character without a
letter of its own as its number. -/
def unitOf (c : Char) : Unit16 :=
  if c.toNat < 0x20 ∧ c ∉ ['\n', '\r', '\t', Char.ofNat 0x08, Char.ofNat 0x0C] then
    .unit c.toNat
  else .char c

theorem decodeUnits_unitOf (c : Char) (us : List Unit16) :
    decodeUnits (unitOf c :: us) = (decodeUnits us).map (c :: ·) := by
  rw [unitOf]
  split
  · rename_i control
    have low : c.toNat < 0x20 := control.1
    rw [decodeUnits.eq_def]
    dsimp only
    rw [if_neg (by omega), if_neg (by omega), Char.ofNat_toNat]
  · rw [decodeUnits]

/-- An escape of one letter. -/
theorem readUnits_letter {e : Char} (named : escaped? e = some c) (other : e ≠ 'u') :
    readUnits ('\\' :: e :: rest) =
      (readUnits rest).map fun read => (.char c :: read.1, read.2) := by
  rw [readUnits.eq_4 _ _ (fun _ _ _ _ _ u _ => other u), named]
  cases readUnits rest <;> rfl

/-- A control character written by its number. -/
theorem readUnits_number (small : c.toNat < 0x20) :
    readUnits (['\\', 'u', '0', '0', hexDigit (c.toNat / 16), hexDigit (c.toNat % 16)] ++ rest) =
      (readUnits rest).map fun read => (.unit c.toNat :: read.1, read.2) := by
  have high := hexValue?_hexDigit (show c.toNat / 16 < 16 by omega)
  have low := hexValue?_hexDigit (show c.toNat % 16 < 16 by omega)
  have zero : hexValue? '0' = some 0 := by decide
  have whole : 0 * 4096 + 0 * 256 + c.toNat / 16 * 16 + c.toNat % 16 = c.toNat := by omega
  simp only [List.cons_append, List.nil_append]
  rw [readUnits, zero, high, low]
  simp only [Option.bind_eq_bind, Option.bind_some, whole]
  cases readUnits rest <;> rfl

/-- A character that stands for itself. -/
theorem readUnits_plain (printable : 0x20 ≤ c.toNat) (quote : c ≠ '"') (escape : c ≠ '\\') :
    readUnits (c :: rest) = (readUnits rest).map fun read => (.char c :: read.1, read.2) := by
  rw [readUnits.eq_5 _ _ (fun h => quote h) (fun _ _ _ _ _ h => absurd h escape)
    (fun _ _ h => absurd h escape), if_neg (by simp [escape]; omega)]
  cases readUnits rest <;> rfl

theorem eq_of_toNat {n : Nat} (number : c.toNat = n) : c = Char.ofNat n := by
  rw [← number, Char.ofNat_toNat]

theorem readUnits_quoteChar (c : Char) (rest : List Char) :
    readUnits (quoteChar c ++ rest) =
      (readUnits rest).map fun read => (unitOf c :: read.1, read.2) := by
  rw [quoteChar]
  split_ifs with quote escape feed carriage tab backspace form control
  · subst quote
    exact readUnits_letter rfl (by decide)
  · subst escape
    exact readUnits_letter rfl (by decide)
  · subst feed
    exact readUnits_letter rfl (by decide)
  · subst carriage
    exact readUnits_letter rfl (by decide)
  · subst tab
    exact readUnits_letter rfl (by decide)
  · rw [eq_of_toNat backspace]
    exact readUnits_letter rfl (by decide)
  · rw [eq_of_toNat form]
    exact readUnits_letter rfl (by decide)
  · have unnamed : c ∉ ['\n', '\r', '\t', Char.ofNat 0x08, Char.ofNat 0x0C] := by
      simp only [List.mem_cons, List.not_mem_nil, not_or, or_false]
      exact ⟨feed, carriage, tab, fun h => backspace (h ▸ rfl), fun h => form (h ▸ rfl)⟩
    rw [unitOf, if_pos ⟨control, unnamed⟩]
    exact readUnits_number control
  · rw [unitOf, if_neg fun h => control h.1]
    exact readUnits_plain (Nat.le_of_not_lt control) quote escape

/-! ## Strings -/

theorem readUnits_quoted (cs rest : List Char) :
    readUnits (cs.flatMap quoteChar ++ '"' :: rest) = some (cs.map unitOf, rest) := by
  induction cs with
  | nil => rfl
  | cons c cs ih =>
      rw [List.flatMap_cons, List.append_assoc, readUnits_quoteChar, ih]
      rfl

theorem decodeUnits_map (cs : List Char) : decodeUnits (cs.map unitOf) = some cs := by
  induction cs with
  | nil => rfl
  | cons c cs ih => rw [List.map_cons, decodeUnits_unitOf, ih, Option.map_some]

/-- A quoted string is read as the string, behind its opening quote and up to its closing
one. -/
theorem readText_quoted (cs rest : List Char) :
    readText (cs.flatMap quoteChar ++ '"' :: rest) = some (some (String.ofList cs), rest) := by
  simp only [readText, readUnits_quoted, decodeUnits_map, Option.map_some]

theorem quote_append (cs rest : List Char) :
    quote cs ++ rest = '"' :: (cs.flatMap quoteChar ++ '"' :: rest) := by
  simp [quote]

end Infographic.Json
