/-
# Infographic.Proofs.DigitValues -- what runs of digits and numerals stand for

A run of digits stands for a natural number, and a numeral for that number divided by a power of ten
(`Numeral.value`).  Zeros in front of a run and zeros dropped from the end of a fraction change
nothing (`digitsValue_zeros_append`, `Numeral.value_trim`), and writing units with some decimal
places divides them (`Numeral.value_ofUnits`).
-/
import Mathlib.Algebra.Order.Field.Rat
import Mathlib.Tactic.FieldSimp
import Mathlib.Tactic.NormNum
import Mathlib.Tactic.Ring
import Infographic.Number.Numeral
import Infographic.Proofs.PlainNumbers

namespace Infographic.Number

set_option autoImplicit false

variable {ds es : List Char}

/-! ## Runs of digits -/

instance (ds : List Char) : Decidable (AllDigits ds) :=
  List.decidableBAll (fun c => isDigit c = true) ds

theorem digitsValue_append (ds es : List Char) :
    digitsValue (ds ++ es) = digitsValue ds * 10 ^ es.length + digitsValue es := by
  rw [Nat.mul_comm]
  exact (Nat.ofDigitChars_append 0).trans Nat.ofDigitChars_eq_ofDigitChars_zero

theorem digitsValue_zeros (n : Nat) : digitsValue (List.replicate n '0') = 0 :=
  Nat.ofDigitChars_replicate_zero.trans (Nat.mul_zero _)

theorem digitsValue_digitsOf (n : Nat) : digitsValue (digitsOf n) = n :=
  Nat.ofDigitChars_ten_toDigits

theorem digitsValue_zeros_append (n : Nat) (ds : List Char) :
    digitsValue (List.replicate n '0' ++ ds) = digitsValue ds := by
  rw [digitsValue_append, digitsValue_zeros, Nat.zero_mul, Nat.zero_add]

theorem digitsValue_append_zeros (ds : List Char) (n : Nat) :
    digitsValue (ds ++ List.replicate n '0') = digitsValue ds * 10 ^ n := by
  rw [digitsValue_append, digitsValue_zeros, List.length_replicate, Nat.add_zero]

theorem digitsValue_singleton_le {c : Char} (digit : isDigit c = true) : digitsValue [c] ≤ 9 := by
  simp only [isDigit, Bool.and_eq_true, decide_eq_true_eq] at digit
  have most : c.toNat ≤ 57 := digit.2
  change 10 * 0 + (c.toNat - 48) ≤ 9
  omega

theorem digitsValue_lt (digits : AllDigits ds) : digitsValue ds < 10 ^ ds.length := by
  induction ds with
  | nil => exact Nat.one_pos
  | cons c rest ih =>
      have first := digitsValue_singleton_le (digits c List.mem_cons_self)
      have later := ih fun d member => digits d (List.mem_cons_of_mem c member)
      rw [← List.singleton_append, digitsValue_append, List.singleton_append, List.length_cons,
        Nat.pow_succ]
      have most := Nat.mul_le_mul_right (10 ^ rest.length) first
      omega

/-- Digits that do not begin with a zero stand for a number of as many digits. -/
theorem IsLeading.le_digitsValue (leading : IsLeading ds) :
    10 ^ (ds.length - 1) ≤ digitsValue ds := by
  obtain ⟨c, rest, rfl⟩ := List.exists_cons_of_ne_nil leading.nonempty
  have positive : 1 ≤ digitsValue [c] := by
    refine Nat.pos_of_ne_zero fun zero => leading.first ?_
    have digit := leading.digits c List.mem_cons_self
    simp only [isDigit, Bool.and_eq_true, decide_eq_true_eq] at digit
    have least : 48 ≤ c.toNat := digit.1
    have same : c.toNat - 48 = 0 := by
      have unfolded : digitsValue [c] = 10 * 0 + (c.toNat - 48) := rfl
      omega
    have char : c = '0' := Char.toNat_inj.1 (by change c.toNat = 48; omega)
    rw [char, List.head?_cons]
  rw [← List.singleton_append, digitsValue_append, List.singleton_append, List.length_cons,
    Nat.add_sub_cancel]
  calc 10 ^ rest.length = 1 * 10 ^ rest.length := (Nat.one_mul _).symm
    _ ≤ digitsValue [c] * 10 ^ rest.length := Nat.mul_le_mul_right _ positive
    _ ≤ _ := Nat.le_add_right _ _

theorem isLeading_digitsOf {n : Nat} (positive : 0 < n) : IsLeading (digitsOf n) :=
  ⟨allDigits_digitsOf n, digitsOf_ne_nil n, head?_digitsOf positive⟩

theorem stripZeros_append_zeros (ds : List Char) :
    ∃ n, ds = stripZeros ds ++ List.replicate n '0' := by
  refine ⟨(ds.reverse.takeWhile (· == '0')).length, ?_⟩
  have zeros : (ds.reverse.takeWhile (· == '0')).reverse =
      List.replicate (ds.reverse.takeWhile (· == '0')).length '0' := by
    refine List.eq_replicate_iff.2 ⟨List.length_reverse, fun c member => ?_⟩
    simpa using List.mem_takeWhile_imp (p := (· == '0')) (List.mem_reverse.1 member)
  rw [stripZeros, ← zeros, ← List.reverse_append, List.takeWhile_append_dropWhile,
    List.reverse_reverse]

/-- No zero is left at the end. -/
theorem getLast?_stripZeros (ds : List Char) : (stripZeros ds).getLast? ≠ some '0' := by
  rw [stripZeros, List.getLast?_reverse]
  intro zero
  have kept := List.head?_dropWhile_not (· == '0') ds.reverse
  rw [zero] at kept
  simp at kept

/-! ## Numerals -/

namespace Numeral

/-- The number that a numeral stands for. -/
def value (n : Numeral) : ℚ :=
  digitsValue (n.whole ++ n.fraction) / 10 ^ n.fraction.length

/-- Nothing but digits. -/
structure Proper (n : Numeral) : Prop where
  whole : AllDigits n.whole
  fraction : AllDigits n.fraction

variable {n : Numeral}

theorem value_nonneg (n : Numeral) : 0 ≤ n.value :=
  div_nonneg (Nat.cast_nonneg _) (pow_nonneg (by norm_num) _)

/-- The digits of units, with zeros in front so that there are some before the point. -/
theorem digits_ofUnits (units places : Nat) :
    (ofUnits units places).whole ++ (ofUnits units places).fraction =
      List.replicate (places + 1 - (digitsOf units).length) '0' ++ digitsOf units :=
  List.take_append_drop _ _

theorem length_fraction_ofUnits (units places : Nat) :
    (ofUnits units places).fraction.length = places := by
  unfold ofUnits
  dsimp only
  rw [List.length_drop, List.length_append, List.length_replicate]
  omega

theorem proper_ofUnits (units places : Nat) : (ofUnits units places).Proper := by
  have all : AllDigits ((ofUnits units places).whole ++ (ofUnits units places).fraction) := by
    rw [digits_ofUnits]
    exact (allDigits_replicate _).append (allDigits_digitsOf units)
  exact ⟨all.of_subset (List.subset_append_left _ _), all.of_subset (List.subset_append_right _ _)⟩

theorem value_ofUnits (units places : Nat) :
    (ofUnits units places).value = units / 10 ^ places := by
  rw [value, digits_ofUnits, length_fraction_ofUnits, digitsValue_zeros_append,
    digitsValue_digitsOf]

/-- Trimming drops zeros from the end of the fraction. -/
theorem fraction_trim (least : Nat) (n : Numeral) :
    ∃ k, n.fraction = (n.trim least).fraction ++ List.replicate k '0' := by
  obtain ⟨k, zeros⟩ := stripZeros_append_zeros (n.fraction.drop least)
  refine ⟨k, ?_⟩
  rw [trim, List.append_assoc, ← zeros, List.take_append_drop]

theorem Proper.trim (proper : n.Proper) (least : Nat) : (n.trim least).Proper := by
  obtain ⟨k, same⟩ := fraction_trim least n
  refine ⟨proper.whole, proper.fraction.of_subset ?_⟩
  rw [same]
  exact List.subset_append_left _ _

theorem value_trim (least : Nat) (n : Numeral) : (n.trim least).value = n.value := by
  obtain ⟨k, same⟩ := fraction_trim least n
  have whole : (n.trim least).whole = n.whole := rfl
  have nonzero : (10 : ℚ) ^ k ≠ 0 := pow_ne_zero _ (by norm_num)
  rw [value, value, same, whole, ← List.append_assoc, digitsValue_append_zeros, List.length_append,
    List.length_replicate, pow_add, Nat.cast_mul, Nat.cast_pow, Nat.cast_ofNat,
    mul_div_mul_right _ _ nonzero]

end Numeral

end Infographic.Number
