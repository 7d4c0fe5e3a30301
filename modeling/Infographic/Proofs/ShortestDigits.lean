/-
# Infographic.Proofs.ShortestDigits -- the search for the fewest digits

Of the two neighbours of a number on a decimal grid one lies in the rounding interval of the number
as soon as the grid is finer than the interval (`nearest_ne_none`), which a grid of seventeen digits
is (`search_ne_none`).  So the search always finds digits.  Their first place is above the number
(`lt_pow_leadingExponent`), and not above a power of ten beyond the number (`leadingExponent_lt`).
-/
import Infographic.Proofs.DigitValues
import Infographic.Proofs.RoundedArithmetic

namespace Infographic.Number

set_option autoImplicit false

/-! ## Points of a decimal grid -/

theorem ten_pos (e : ℤ) : (0 : ℚ) < 10 ^ e := zpow_pos (by norm_num) e

/-- A point of a grid as a fraction of integers. -/
theorem grid_point (n : ℕ) (e : ℤ) : (n : ℚ) * 10 ^ e = n * 10 ^ e.toNat / 10 ^ (-e).toNat := by
  rw [mul_div_assoc, ← zpow_natCast, ← zpow_natCast, ← zpow_sub₀ (by norm_num)]
  congr 2
  omega

section

variable {b : Basin} {k : ℕ} {e : ℤ} (positive : 0 < b.den)

include positive

theorem le_grid_point_iff (l : ℕ) :
    l * Nat.pow 10 (-e).toNat ≤ k * Nat.pow 10 e.toNat * b.den ↔ (l / b.den : ℚ) ≤ k * 10 ^ e := by
  rw [grid_point, div_le_div_iff₀ (Nat.cast_pos.2 positive) (by positivity)]
  exact_mod_cast Iff.rfl

theorem grid_point_le_iff (h : ℕ) :
    k * Nat.pow 10 e.toNat * b.den ≤ h * Nat.pow 10 (-e).toNat ↔ (k * 10 ^ e : ℚ) ≤ h / b.den := by
  rw [grid_point, div_le_div_iff₀ (by positivity) (Nat.cast_pos.2 positive)]
  exact_mod_cast Iff.rfl

/-- A point in the interval is not outside its ends. -/
theorem mem_of_holds (inside : b.holds k e = true) :
    (b.low / b.den : ℚ) ≤ k * 10 ^ e ∧ (k * 10 ^ e : ℚ) ≤ b.high / b.den := by
  rw [← le_grid_point_iff positive, ← grid_point_le_iff positive]
  unfold Basin.holds at inside
  dsimp only at inside
  split at inside <;> simp only [Bool.and_eq_true, decide_eq_true_eq] at inside <;> omega

/-- A point that is not in the interval is not inside its ends. -/
theorem outside_of_not_holds (outside : b.holds k e = false) :
    (k * 10 ^ e : ℚ) ≤ b.low / b.den ∨ (b.high / b.den : ℚ) ≤ k * 10 ^ e := by
  rw [← le_grid_point_iff positive, ← grid_point_le_iff positive]
  unfold Basin.holds at outside
  dsimp only at outside
  split at outside <;> simp only [Bool.and_eq_false_iff, decide_eq_false_iff_not] at outside <;> omega

/-- The point below a number. -/
theorem below_mem (e : ℤ) :
    let below := b.value * Nat.pow 10 (-e).toNat / (b.den * Nat.pow 10 e.toNat)
    (below * 10 ^ e : ℚ) ≤ b.value / b.den ∧
      (b.value / b.den : ℚ) < (below + 1 : ℕ) * 10 ^ e := by
  have above : 0 < b.den * Nat.pow 10 e.toNat := Nat.mul_pos positive (Nat.pow_pos (by decide))
  dsimp only
  rw [← grid_point_le_iff positive, ← not_le, ← grid_point_le_iff positive, not_le]
  generalize b.value * Nat.pow 10 (-e).toNat = n
  constructor
  · calc n / (b.den * Nat.pow 10 e.toNat) * Nat.pow 10 e.toNat * b.den
        = n / (b.den * Nat.pow 10 e.toNat) * (b.den * Nat.pow 10 e.toNat) := by ring
      _ ≤ n := Nat.div_mul_le_self _ _
  · calc n < n / (b.den * Nat.pow 10 e.toNat) * (b.den * Nat.pow 10 e.toNat) +
          b.den * Nat.pow 10 e.toNat := Nat.lt_div_mul_add above
      _ = (n / (b.den * Nat.pow 10 e.toNat) + 1) * Nat.pow 10 e.toNat * b.den := by ring

/-- The point that is taken is in the interval, and not further below the number than one step. -/
theorem nearest_spec (found : b.nearest e = some k) :
    (b.value / b.den : ℚ) < (k + 1 : ℕ) * 10 ^ e ∧ (k * 10 ^ e : ℚ) ≤ b.high / b.den := by
  refine ⟨?_, (mem_of_holds positive (holds_of_nearest found)).2⟩
  obtain ⟨-, above⟩ := below_mem positive e
  have least : b.value * Nat.pow 10 (-e).toNat / (b.den * Nat.pow 10 e.toNat) ≤ k := by
    unfold Basin.nearest at found
    dsimp only at found
    split at found
    · cases found
      split <;> omega
    · cases found
      exact Nat.le_refl _
    · cases found
      exact Nat.le_succ _
    · cases found
  refine above.trans_le (mul_le_mul_of_nonneg_right ?_ (ten_pos e).le)
  exact_mod_cast Nat.succ_le_succ least

/-- **On a grid that is finer than the interval there is a point of it.** -/
theorem nearest_ne_none (low : b.low < b.value) (high : b.value < b.high)
    (fine : (10 : ℚ) ^ e < b.high / b.den - b.low / b.den) : b.nearest e ≠ none := by
  intro none
  obtain ⟨below, above⟩ := below_mem positive e
  unfold Basin.nearest at none
  dsimp only at none
  generalize b.value * Nat.pow 10 (-e).toNat / (b.den * Nat.pow 10 e.toNat) = k at none below above
  have den : (0 : ℚ) < b.den := Nat.cast_pos.2 positive
  have first : (b.low / b.den : ℚ) < b.value / b.den :=
    div_lt_div_of_pos_right (Nat.cast_lt.2 low) den
  have last : (b.value / b.den : ℚ) < b.high / b.den :=
    div_lt_div_of_pos_right (Nat.cast_lt.2 high) den
  split at none
  · cases none
  · cases none
  · cases none
  · rename_i outside outside'
    have step : ((k + 1 : ℕ) * 10 ^ e : ℚ) = k * 10 ^ e + 10 ^ e := by push_cast; ring
    rcases outside_of_not_holds positive outside with before | behind <;>
      rcases outside_of_not_holds positive outside' with before' | behind' <;> linarith

end

/-! ## The search -/

/-- If the search fails then it did so on every grid. -/
theorem nearest_of_search_none {b : Basin} {point : ℤ} {fuel first count : ℕ}
    (none : b.search point fuel first = none) (low : first ≤ count) (high : count < first + fuel) :
    b.nearest (point - count) = Option.none := by
  induction fuel generalizing first with
  | zero => omega
  | succ fuel ih =>
      rw [Basin.search] at none
      split at none
      · cases none
      · rename_i here
        rcases low.lt_or_eq with later | rfl
        · exact ih none later (by omega)
        · exact here

theorem nearest_of_search {b : Basin} {point : ℤ} {fuel first : ℕ} {found : ℕ × ℤ}
    (search : b.search point fuel first = some found) : b.nearest found.2 = some found.1 := by
  induction fuel generalizing first with
  | zero => cases search
  | succ fuel ih =>
      rw [Basin.search] at search
      split at search
      · rename_i k nearest
        cases search
        exact nearest
      · exact ih search

theorem le_mul_leadingZeros {num den fuel : ℕ} (enough : den ≤ num * 10 ^ fuel) :
    den ≤ num * 10 ^ leadingZeros den fuel num := by
  induction fuel generalizing num with
  | zero => exact enough
  | succ fuel ih =>
      rw [leadingZeros]
      split
      · rwa [Nat.pow_zero, Nat.mul_one]
      · have rest := ih (show den ≤ num * 10 * 10 ^ fuel by rwa [Nat.mul_assoc, ← Nat.pow_succ'])
        rwa [Nat.pow_add, Nat.pow_one, ← Nat.mul_assoc]

/-- The first digit of a number is not below the place where the search starts. -/
theorem pow_decimalPoint_le {num den : ℕ} (positive : 0 < den) (enough : den ≤ num * 10 ^ 400) :
    (10 : ℚ) ^ (decimalPoint num den - 1) ≤ num / den := by
  have above : (0 : ℚ) < den := Nat.cast_pos.2 positive
  rw [le_div_iff₀ above, decimalPoint]
  split
  · rename_i large
    have whole : 0 < num / den := Nat.div_pos large positive
    have digits := (isLeading_digitsOf whole).le_digitsValue
    rw [digitsValue_digitsOf] at digits
    have count : ((width (num / den) : ℤ) - 1) = ((digitsOf (num / den)).length - 1 : ℕ) := by
      have some := List.length_pos_of_ne_nil (digitsOf_ne_nil (num / den))
      rw [width]
      omega
    rw [count, zpow_natCast]
    exact_mod_cast (Nat.mul_le_mul_right den digits).trans (Nat.div_mul_le_self num den)
  · have found := le_mul_leadingZeros enough
    generalize leadingZeros den 400 num = z at found
    rw [show (1 - (z : ℤ) - 1) = -z by omega, zpow_neg, zpow_natCast, inv_mul_le_iff₀ (by positivity),
      mul_comm]
    exact_mod_cast found

section

variable {d : Dyadic}

theorem den_pos (d : Dyadic) : 0 < (Basin.of d).den := Nat.two_pow_pos _

theorem basin_div (n : ℕ) (d : Dyadic) :
    ((n * Nat.pow 2 (d.exponent - 2).toNat : ℕ) / (Basin.of d).den : ℚ) =
      n * 2 ^ d.exponent / 4 := by
  have power : (2 : ℚ) ^ (d.exponent - 2).toNat / 2 ^ (-(d.exponent - 2)).toNat =
      2 ^ d.exponent / 4 := by
    rw [← zpow_natCast, ← zpow_natCast, ← zpow_sub₀ two_ne_zero,
      show (4 : ℚ) = 2 ^ (2 : ℤ) by norm_num, ← zpow_sub₀ two_ne_zero]
    congr 1
    omega
  rw [Basin.of]
  dsimp only
  rw [Nat.pow_eq, Nat.pow_eq, Nat.cast_mul, Nat.cast_pow, Nat.cast_pow, Nat.cast_ofNat,
    mul_div_assoc, power, mul_div_assoc]

theorem value_basin (d : Dyadic) :
    ((Basin.of d).value / (Basin.of d).den : ℚ) = d.mantissa * 2 ^ d.exponent := by
  refine (basin_div (4 * d.mantissa) d).trans ?_
  push_cast
  ring

theorem high_basin (d : Dyadic) :
    ((Basin.of d).high / (Basin.of d).den : ℚ) = d.mantissa * 2 ^ d.exponent + 2 ^ d.exponent / 2 := by
  refine (basin_div (4 * d.mantissa + 2) d).trans ?_
  push_cast
  ring

/-- No float is too small for the search of its first place. -/
theorem den_le_value (canonical : Canonical d.mantissa d.exponent) :
    (Basin.of d).den ≤ (Basin.of d).value * 10 ^ 400 := by
  have width : (-(d.exponent - 2)).toNat ≤ 3 * 400 := by
    have least := canonical.least
    omega
  have positive : 1 ≤ (Basin.of d).value :=
    Nat.mul_pos (Nat.mul_pos (by decide) (Nat.pos_of_ne_zero canonical.positive))
      (Nat.two_pow_pos _)
  have powers {w n : ℕ} (few : w ≤ 3 * n) : 2 ^ w ≤ 10 ^ n := by
    refine (Nat.pow_le_pow_right (by decide) few).trans ?_
    rw [Nat.pow_mul]
    exact Nat.pow_le_pow_left (by decide) n
  calc (Basin.of d).den ≤ 10 ^ 400 := powers width
    _ ≤ (Basin.of d).value * 10 ^ 400 := Nat.le_mul_of_pos_left _ positive

/-- The interval is wider than a grid of seventeen digits. -/
theorem fine_grid (canonical : Canonical d.mantissa d.exponent) :
    (10 : ℚ) ^ (decimalPoint (Basin.of d).value (Basin.of d).den - (17 : ℕ)) <
      (Basin.of d).high / (Basin.of d).den - (Basin.of d).low / (Basin.of d).den := by
  have place := pow_decimalPoint_le (den_pos d) (den_le_value canonical)
  rw [value_basin] at place
  have step := step_pos d.exponent
  have positive := canonical.positive
  have small : (d.mantissa : ℚ) ≤ 2 ^ 53 := by exact_mod_cast canonical.small.le
  have bound : (10 : ℚ) ^ (decimalPoint (Basin.of d).value (Basin.of d).den - (17 : ℕ)) ≤
      d.mantissa * 2 ^ d.exponent / 10 ^ 16 := by
    rw [le_div_iff₀ (by norm_num)]
    refine le_of_eq_of_le ?_ place
    rw [← zpow_natCast, ← zpow_add₀ (by norm_num)]
    congr 1
    push_cast
    ring
  refine bound.trans_lt ?_
  rw [high_basin]
  by_cases edge : d.mantissa = Nat.pow 2 52 ∧ -1074 < d.exponent
  · have low : (Basin.of d).low = (4 * d.mantissa - 1) * Nat.pow 2 (d.exponent - 2).toNat := by
      rw [Basin.of]
      dsimp only
      rw [if_pos edge]
    have mantissa : (d.mantissa : ℚ) = 2 ^ 52 := by
      rw [edge.1, Nat.pow_eq]
      norm_num
    rw [low, basin_div, Nat.cast_sub (by omega), Nat.cast_mul, mantissa]
    push_cast
    linarith
  · have low : (Basin.of d).low = (4 * d.mantissa - 2) * Nat.pow 2 (d.exponent - 2).toNat := by
      rw [Basin.of]
      dsimp only
      rw [if_neg edge]
    rw [low, basin_div, Nat.cast_sub (by omega), Nat.cast_mul]
    push_cast
    have most := mul_le_mul_of_nonneg_right small step.le
    linarith

/-- **The search finds digits.** -/
theorem search_ne_none (canonical : Canonical d.mantissa d.exponent) :
    (Basin.of d).search (decimalPoint (Basin.of d).value (Basin.of d).den) 17 1 ≠ none := by
  intro none
  have scale : 0 < Nat.pow 2 (d.exponent - 2).toNat := Nat.two_pow_pos _
  have positive := canonical.positive
  refine nearest_ne_none (den_pos d) ?_ ?_ (fine_grid canonical)
    (nearest_of_search_none none (show 1 ≤ 17 by decide) (by decide))
  · refine Nat.mul_lt_mul_of_pos_right ?_ scale
    split <;> omega
  · exact Nat.mul_lt_mul_of_pos_right (by omega) scale

end

/-! ## The place of the first digit -/

section

variable {x : Float} {d : Dyadic}

/-- A positive number by its fields. -/
theorem decode_of_pos (finite : x.isFinite = true) (positive : 0 < toRat x) :
    ∃ d, decode x = .finite d ∧ Canonical d.mantissa d.exponent ∧
      toRat x = d.mantissa * 2 ^ d.exponent := by
  obtain ⟨d, decoded⟩ := isFinite_iff.1 finite
  have size := abs_toRat decoded
  rw [abs_of_pos positive, Dyadic.numerator_div_denominator] at size
  rcases unpack_of_decode decoded with ⟨-, canonical, -⟩ | ⟨none, -⟩
  · exact ⟨d, decoded, canonical, size⟩
  · rw [size, none, Nat.cast_zero, zero_mul] at positive
    exact absurd positive (lt_irrefl _)

/-- The first of the shortest digits is that of a number less than one step below, and not more than
half a step of the floats above. -/
theorem leadingExponent_spec (decoded : decode x = .finite d)
    (canonical : Canonical d.mantissa d.exponent) :
    ∃ (k : ℕ) (e : ℤ), 0 < k ∧ leadingExponent x = (digitsOf k).length + e - 1 ∧
      (d.mantissa * 2 ^ d.exponent : ℚ) < (k + 1 : ℕ) * 10 ^ e ∧
      (k * 10 ^ e : ℚ) ≤ d.mantissa * 2 ^ d.exponent + 2 ^ d.exponent / 2 := by
  obtain ⟨⟨k, e⟩, search⟩ := Option.ne_none_iff_exists'.1 (search_ne_none canonical)
  have found := nearest_of_search search
  obtain ⟨above, below⟩ := nearest_spec (den_pos d) found
  rw [value_basin] at above
  rw [high_basin] at below
  refine ⟨k, e, pos_of_holds (Nat.pos_of_ne_zero canonical.positive) (holds_of_nearest found), ?_,
    above, below⟩
  rw [leadingExponent, decoded]
  dsimp only
  rw [if_neg canonical.positive, shortest, search]

/-- The first digit is not more than half a step of the floats above the number. -/
theorem pow_leadingExponent_le (decoded : decode x = .finite d)
    (canonical : Canonical d.mantissa d.exponent) :
    (10 : ℚ) ^ leadingExponent x ≤ d.mantissa * 2 ^ d.exponent + 2 ^ d.exponent / 2 := by
  obtain ⟨k, e, nonzero, place, -, near⟩ := leadingExponent_spec decoded canonical
  have digits := (isLeading_digitsOf nonzero).le_digitsValue
  rw [digitsValue_digitsOf] at digits
  have some := List.length_pos_of_ne_nil (digitsOf_ne_nil k)
  have split : leadingExponent x = ((digitsOf k).length - 1 : ℕ) + e := by omega
  refine LE.le.trans ?_ near
  rw [split, zpow_add₀ (by norm_num), zpow_natCast]
  exact mul_le_mul_of_nonneg_right (by exact_mod_cast digits) (ten_pos e).le

/-- **A number is below the place behind its first digit.** -/
theorem lt_pow_leadingExponent (finite : x.isFinite = true) (positive : 0 < toRat x) :
    toRat x < 10 ^ (leadingExponent x + 1) := by
  obtain ⟨d, decoded, canonical, same⟩ := decode_of_pos finite positive
  obtain ⟨k, e, -, place, above, -⟩ := leadingExponent_spec decoded canonical
  have digits := digitsValue_lt (allDigits_digitsOf k)
  rw [digitsValue_digitsOf] at digits
  rw [same, place, sub_add_cancel, zpow_add₀ (by norm_num), zpow_natCast]
  refine above.trans_le (mul_le_mul_of_nonneg_right ?_ (ten_pos e).le)
  exact_mod_cast digits

/-- A number with no digit up to the first place behind the point is below a tenth. -/
theorem lt_tenth (finite : x.isFinite = true) (positive : 0 < toRat x)
    (small : leadingExponent x ≤ -2) : toRat x < 1 / 10 := by
  calc toRat x < 10 ^ (leadingExponent x + 1) := lt_pow_leadingExponent finite positive
    _ ≤ 10 ^ (-1 : ℤ) := zpow_le_zpow_right₀ (by norm_num) (by omega)
    _ = 1 / 10 := by norm_num

/-- No float has its first digit behind the 324th place. -/
theorem neg_le_leadingExponent (finite : x.isFinite = true) (positive : 0 < toRat x) :
    -324 ≤ leadingExponent x := by
  obtain ⟨d, -, canonical, value⟩ := decode_of_pos finite positive
  have above := lt_pow_leadingExponent finite positive
  by_contra tiny
  have least : (2 : ℚ) ^ (-1074 : ℤ) ≤ toRat x := by
    rw [value]
    calc (2 : ℚ) ^ (-1074 : ℤ) ≤ 1 * 2 ^ d.exponent := by
          rw [one_mul]
          exact zpow_le_zpow_right₀ (by norm_num) canonical.least
      _ ≤ d.mantissa * 2 ^ d.exponent := by
          refine mul_le_mul_of_nonneg_right ?_ (step_pos _).le
          exact_mod_cast Nat.pos_of_ne_zero canonical.positive
  have most : toRat x < 10 ^ (-324 : ℤ) :=
    above.trans_le (zpow_le_zpow_right₀ (by norm_num) (by omega))
  have power : (2 : ℕ) ^ 1074 ≤ 10 ^ 324 := by decide +kernel
  have order : (10 : ℚ) ^ (-324 : ℤ) ≤ 2 ^ (-1074 : ℤ) := by
    rw [show (-324 : ℤ) = -(324 : ℕ) from rfl, show (-1074 : ℤ) = -(1074 : ℕ) from rfl, zpow_neg,
      zpow_neg, zpow_natCast, zpow_natCast]
    exact inv_anti₀ (by positivity) (by exact_mod_cast power)
  linarith

/-- No float has its first digit before the 308th place. -/
theorem leadingExponent_le (finite : x.isFinite = true) (positive : 0 < toRat x) :
    leadingExponent x ≤ 308 := by
  obtain ⟨d, decoded, canonical, -⟩ := decode_of_pos finite positive
  have near := pow_leadingExponent_le decoded canonical
  by_contra large
  have least : (10 : ℚ) ^ 309 ≤ 10 ^ leadingExponent x := by
    rw [← zpow_natCast]
    exact zpow_le_zpow_right₀ (by norm_num) (by omega)
  have step : (2 : ℚ) ^ d.exponent ≤ 2 ^ 971 := by
    rw [← zpow_natCast]
    exact zpow_le_zpow_right₀ (by norm_num) (exponent_le decoded)
  have few : (d.mantissa : ℚ) + 1 / 2 ≤ 2 ^ 54 := by
    have small : (d.mantissa : ℚ) ≤ 2 ^ 53 := by exact_mod_cast canonical.small.le
    linarith
  have most : (d.mantissa * 2 ^ d.exponent + 2 ^ d.exponent / 2 : ℚ) ≤ 2 ^ 54 * 2 ^ 971 := by
    calc (d.mantissa * 2 ^ d.exponent + 2 ^ d.exponent / 2 : ℚ)
        = (d.mantissa + 1 / 2) * 2 ^ d.exponent := by ring
      _ ≤ 2 ^ 54 * 2 ^ 971 := mul_le_mul few step (step_pos _).le (by positivity)
  have order : (2 : ℕ) ^ 54 * 2 ^ 971 < 10 ^ 309 := by decide +kernel
  have order' : (2 : ℚ) ^ 54 * 2 ^ 971 < 10 ^ 309 := by exact_mod_cast order
  exact absurd (least.trans (near.trans most)) (not_le.2 order')

/-- A power of ten that is a float is on the grid of every number below it. -/
theorem exists_mul_step_of_lt {n m : ℕ} {e : ℤ} (few : n ≤ 22) (canonical : Canonical m e)
    (below : (m * 2 ^ e : ℚ) < 10 ^ n) : ∃ j : ℕ, (10 : ℚ) ^ n = j * 2 ^ e := by
  have coarse : e ≤ n := by
    by_contra fine
    have normal : 2 ^ 52 ≤ m := canonical.normal.resolve_right (by omega)
    have least : (2 : ℚ) ^ (53 + n) ≤ m * 2 ^ e := by
      calc (2 : ℚ) ^ (53 + n) = 2 ^ 52 * 2 ^ (1 + n : ℤ) := by
            rw [← zpow_natCast, ← zpow_natCast, ← zpow_add₀ two_ne_zero]
            congr 1
            push_cast
            ring
        _ ≤ m * 2 ^ e := mul_le_mul (by exact_mod_cast normal)
            (zpow_le_zpow_right₀ (by norm_num) (by omega)) (step_pos _).le (Nat.cast_nonneg m)
    have less : (2 : ℕ) ^ (53 + n) < 10 ^ n := by exact_mod_cast least.trans_lt below
    have more : ∀ n ≤ 22, 10 ^ n ≤ 2 ^ (53 + n) := by decide
    exact absurd less (not_lt.2 (more n few))
  refine ⟨5 ^ n * 2 ^ (n - e).toNat, ?_⟩
  have power : (2 : ℚ) ^ (n - e).toNat * 2 ^ e = 2 ^ n := by
    rw [← zpow_natCast, ← zpow_natCast, ← zpow_add₀ two_ne_zero]
    congr 1
    omega
  push_cast
  rw [mul_assoc, power, ← mul_pow]
  norm_num

/-- The first digit of a number below a power of ten that is a float is below it too. -/
theorem leadingExponent_lt (finite : x.isFinite = true) (positive : 0 < toRat x) {n : ℕ}
    (few : n ≤ 22) (below : toRat x < 10 ^ n) : leadingExponent x < n := by
  obtain ⟨d, decoded, canonical, same⟩ := decode_of_pos finite positive
  by_contra beyond
  have most : (10 : ℚ) ^ n ≤ d.mantissa * 2 ^ d.exponent + 2 ^ d.exponent / 2 := by
    refine LE.le.trans ?_ (pow_leadingExponent_le decoded canonical)
    rw [← zpow_natCast]
    exact zpow_le_zpow_right₀ (by norm_num) (not_lt.1 beyond)
  -- the power is on the grid of the number, so it is a whole step above it
  obtain ⟨j, multiple⟩ := exists_mul_step_of_lt few canonical (same ▸ below)
  rw [same, multiple, mul_lt_mul_iff_of_pos_right (step_pos _)] at below
  have next : d.mantissa + 1 ≤ j := by exact_mod_cast below
  have step := step_pos d.exponent
  have whole : (d.mantissa + 1 : ℚ) * 2 ^ d.exponent ≤ j * 2 ^ d.exponent :=
    mul_le_mul_of_nonneg_right (by exact_mod_cast next) step.le
  linarith

end

end Infographic.Number
