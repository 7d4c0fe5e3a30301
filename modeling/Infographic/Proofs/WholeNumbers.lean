/-
# Infographic.Proofs.WholeNumbers -- exact operations with whole numbers

Rounding down or up to an integer and the remainder of a division are exact, whatever the sign
(`isInteger_floor`, `isInteger_ceil`, `IsInteger.remainder`).  A quotient is rounded, but with up to
53 binary digits it is not rounded across an integer, so that its whole part is exact again
(`IsInteger.floor_div`).  The plain text of a whole number is its sign and its digits.
-/
import Infographic.Number.Numeral
import Infographic.Proofs.SignedArithmetic

namespace Infographic.Number

set_option autoImplicit false

open Float.Model (Format UnpackedFloat totalExponent)
open Float.Model.UnpackedFloat

variable {x y : Float} {d : Dyadic} {m k : ℕ} {N : ℤ} {q : ℤ}

/-- A float is an integer. -/
structure IsInteger (x : Float) (N : ℤ) : Prop where
  finite : x.isFinite = true
  value : toRat x = N

/-- An integer is found by its units. -/
theorem IsInteger.of_units (finite : x.isFinite = true)
    (found : units x.toModel.unpack = N * 2 ^ 1074) : IsInteger x N := by
  refine ⟨finite, ?_⟩
  rw [toRat, rat, found, Int.cast_mul, Int.cast_pow, Int.cast_ofNat]
  exact mul_div_cancel_right₀ _ (by positivity)

/-! ## Sign and magnitude -/

/-- A magnitude with its sign. -/
def signed {α : Type} [Neg α] (negative : Bool) (a : α) : α :=
  if negative then -a else a

/-- A finite number by its sign and its magnitude. -/
theorem toRat_of_decode (decoded : decode x = .finite d) :
    toRat x = signed d.negative (d.numerator / d.denominator : ℚ) := by
  rw [Dyadic.numerator_div_denominator, toRat]
  rcases unpack_of_decode decoded with ⟨positive, canonical, form⟩ | ⟨none, form⟩
  · rw [form, rat_finite_signed _ positive canonical.least]
    cases d.negative <;> simp [signed, signOf, Sign.apply]
  · have zero : rat (.zero (signOf d.negative)) = 0 := zero_div _
    rw [form, none, Nat.cast_zero, zero_mul, zero]
    cases d.negative <;> simp [signed]

theorem toRat_withSign (finite : x.isFinite = true) (negative : Bool) :
    (withSign negative x).isFinite = true ∧
      toRat (withSign negative x) = signed negative (toRat x) := by
  cases negative with
  | false => exact ⟨finite, rfl⟩
  | true => exact toRat_opposite finite

/-- A natural number of up to 53 binary digits with a sign. -/
theorem toRat_signed_ofNat (small : m < 2 ^ 53) (negative : Bool) :
    (withSign negative (Float.ofNat m)).isFinite = true ∧
      toRat (withSign negative (Float.ofNat m)) = signed negative (m : ℚ) := by
  obtain ⟨finite, same⟩ := (rounds_ofNat m).natCast small
  rw [← same]
  exact toRat_withSign finite negative

/-! ## Rounding down and up -/

/-- **Rounding to an integer is exact, whatever the sign.** -/
theorem toRat_roundWith (mode : Rounding) (decoded : decode x = .finite d) :
    (roundWith mode x).isFinite = true ∧
      toRat (roundWith mode x) = signed d.negative (d.roundMagnitude mode : ℚ) := by
  rw [roundWith, decoded]
  dsimp only
  by_cases whole : 0 ≤ d.exponent
  · obtain ⟨one, same⟩ := roundMagnitude_of_whole mode whole
    rw [if_pos whole]
    refine ⟨isFinite_iff.2 ⟨d, decoded⟩, ?_⟩
    rw [toRat_of_decode decoded, one, same, Nat.cast_one, div_one]
  · rw [if_neg whole]
    exact toRat_signed_ofNat (roundMagnitude_small mode decoded (by omega)) d.negative

/-- The integer above a fraction. -/
theorem ceil_natCast_div (above : 0 < k) :
    ⌈(m / k : ℚ)⌉ = ((if m % k = 0 then m / k else m / k + 1 : ℕ) : ℤ) := by
  have positive : (0 : ℚ) < k := Nat.cast_pos.2 above
  have parts := natCast_div_eq_add m k
  have less : ((m % k : ℕ) : ℚ) / k < 1 := by
    rw [div_lt_one positive]
    exact_mod_cast Nat.mod_lt m above
  rw [Int.ceil_eq_iff, parts, Int.cast_natCast]
  split
  · rename_i none
    rw [none, Nat.cast_zero, zero_div]
    constructor <;> linarith
  · rename_i rest
    have more : (0 : ℚ) < (m % k : ℕ) / k :=
      div_pos (Nat.cast_pos.2 (Nat.pos_of_ne_zero rest)) positive
    rw [Nat.cast_add, Nat.cast_one]
    constructor <;> linarith

/-- The integer below a number with a sign. -/
theorem roundMagnitude_down (d : Dyadic) :
    signed d.negative (d.roundMagnitude .down : ℤ) =
      ⌊signed d.negative (d.numerator / d.denominator : ℚ)⌋ := by
  have above : 0 < d.denominator := Nat.two_pow_pos _
  unfold Dyadic.roundMagnitude
  cases d.negative with
  | false =>
      simp only [signed, Rounding.steps, Bool.false_and, Bool.false_eq_true, if_false]
      exact (Rat.floor_natCast_div_natCast _ _).symm
  | true =>
      simp only [signed, Rounding.steps, Bool.true_and, if_true, Int.floor_neg]
      rw [ceil_natCast_div above]
      by_cases none : d.numerator % d.denominator = 0 <;> simp [none]

/-- The integer above a number with a sign. -/
theorem roundMagnitude_up (d : Dyadic) :
    signed d.negative (d.roundMagnitude .up : ℤ) =
      ⌈signed d.negative (d.numerator / d.denominator : ℚ)⌉ := by
  have above : 0 < d.denominator := Nat.two_pow_pos _
  unfold Dyadic.roundMagnitude
  cases d.negative with
  | false =>
      simp only [signed, Rounding.steps, Bool.not_false, Bool.true_and, Bool.false_eq_true,
        if_false]
      rw [ceil_natCast_div above]
      by_cases none : d.numerator % d.denominator = 0 <;> simp [none]
  | true =>
      simp only [signed, Rounding.steps, Bool.not_true, Bool.false_and, Bool.false_eq_true, if_true,
        if_false, Int.ceil_neg]
      exact congrArg (-·) (Rat.floor_natCast_div_natCast _ _).symm

theorem cast_signed (negative : Bool) (m : ℕ) :
    ((signed negative (m : ℤ) : ℤ) : ℚ) = signed negative (m : ℚ) := by
  cases negative <;> simp [signed]

/-- **The integer below a number is exact.** -/
theorem isInteger_floor (finite : x.isFinite = true) : IsInteger (floor x) ⌊toRat x⌋ := by
  obtain ⟨d, decoded⟩ := isFinite_iff.1 finite
  obtain ⟨rounded, value⟩ := toRat_roundWith .down decoded
  refine ⟨rounded, value.trans ?_⟩
  rw [toRat_of_decode decoded, ← roundMagnitude_down, cast_signed]

/-- **The integer above a number is exact.** -/
theorem isInteger_ceil (finite : x.isFinite = true) : IsInteger (ceil x) ⌈toRat x⌉ := by
  obtain ⟨d, decoded⟩ := isFinite_iff.1 finite
  obtain ⟨rounded, value⟩ := toRat_roundWith .up decoded
  refine ⟨rounded, value.trans ?_⟩
  rw [toRat_of_decode decoded, ← roundMagnitude_up, cast_signed]

/-- An integer is not rounded up any more. -/
theorem IsInteger.ceil (integer : IsInteger x N) : IsInteger (ceil x) N := by
  have same := isInteger_ceil integer.finite
  rwa [integer.value, Int.ceil_intCast] at same

/-! ## Remainders -/

/-- Powers of two between the root of the least float and one are floats. -/
theorem toRat_twoPow (least : -537 ≤ q) (most : q ≤ 0) :
    (twoPow q).isFinite = true ∧ toRat (twoPow q) = 2 ^ q := by
  have all : ∀ j : Fin 538, (twoPow (-(j : ℤ))).isFinite = true ∧
      units (twoPow (-(j : ℤ))).toModel.unpack = 2 ^ (1074 - j.val) := by
    decide +kernel
  obtain ⟨j, rfl⟩ : ∃ j : ℕ, q = -j := ⟨q.natAbs, by omega⟩
  have inside : j ≤ 537 := by omega
  obtain ⟨finite, same⟩ := all ⟨j, Nat.lt_succ_of_le inside⟩
  dsimp only at finite same
  refine ⟨finite, ?_⟩
  rw [toRat, rat, same, Int.cast_pow, Int.cast_ofNat, ← zpow_natCast, ← zpow_natCast,
    ← zpow_sub₀ two_ne_zero]
  congr 1
  omega

/-- A float in smaller steps is exact. -/
theorem toRat_mul_twoPow {e : ℤ} (small : m < 2 ^ 53) (finite : x.isFinite = true)
    (value : toRat x = m * 2 ^ e) (least : -537 ≤ q) (most : q ≤ 0) (inside : -1074 ≤ e + q)
    (ordinary : e ≤ 0) :
    (x * twoPow q).isFinite = true ∧ toRat (x * twoPow q) = m * 2 ^ (e + q) := by
  obtain ⟨finite', power⟩ := toRat_twoPow least most
  have rounds := rounds_mul finite finite' (by rw [value]; positivity) (by rw [power]; positivity)
  have product : toRat x * toRat (twoPow q) = m * 2 ^ (e + q) := by
    rw [value, power, zpow_add₀ two_ne_zero, mul_assoc]
  rw [product] at rounds
  have stays := nearest_eq_self small inside
  have below : nearest (m * 2 ^ (e + q)) < 2 ^ 1024 := by
    rw [stays]
    calc (m : ℚ) * 2 ^ (e + q) ≤ m * 1 := by
          refine mul_le_mul_of_nonneg_left ?_ (Nat.cast_nonneg m)
          exact zpow_le_one_of_nonpos₀ (by norm_num) (by omega)
      _ < 2 ^ 1024 := by
          rw [mul_one]
          exact_mod_cast small.trans (Nat.pow_lt_pow_right (by decide) (by decide))
  obtain ⟨finite'', same⟩ := rounds.near below
  exact ⟨finite'', same.trans stays⟩

theorem toRat_ofScaled (small : m < 2 ^ 53) (least : -1074 ≤ q) (most : q ≤ 0) :
    (ofScaled m q).isFinite = true ∧ toRat (ofScaled m q) = m * 2 ^ q := by
  obtain ⟨finite, value⟩ := (rounds_ofNat m).natCast small
  obtain ⟨finite', value'⟩ := toRat_mul_twoPow (e := 0) (q := q / 2) small finite
    (by rw [value, zpow_zero, mul_one]) (by omega) (by omega) (by omega) le_rfl
  obtain ⟨finite'', value''⟩ := toRat_mul_twoPow (q := q - q / 2) small finite' value'
    (by omega) (by omega) (by omega) (by omega)
  refine ⟨finite'', value''.trans ?_⟩
  congr 2
  omega

/-- The exponent of the least digit. -/
theorem exponent_ge (decoded : decode x = .finite d) : -1074 ≤ d.exponent := by
  rw [decode_eq, Decoded.ofFields] at decoded
  split at decoded
  · split at decoded <;> cases decoded
  · split at decoded <;> cases decoded <;> dsimp only <;> omega

namespace IsInteger

/-- An integer is a multiple of the denominator of its float. -/
theorem numerator (integer : IsInteger x N) (decoded : decode x = .finite d) :
    d.numerator = N.natAbs * d.denominator := by
  have amount := abs_toRat decoded
  have positive : (0 : ℚ) < d.denominator := Nat.cast_pos.2 (Nat.two_pow_pos _)
  rw [integer.value, eq_div_iff positive.ne', ← Int.cast_abs, Int.abs_eq_natAbs,
    Int.cast_natCast] at amount
  exact_mod_cast amount.symm

/-- An integer is its size with the sign bit. -/
theorem signed_natAbs (integer : IsInteger x N) (decoded : decode x = .finite d) :
    N = signed d.negative (N.natAbs : ℤ) := by
  have positive : (0 : ℚ) < d.denominator := Nat.cast_pos.2 (Nat.two_pow_pos _)
  have value := toRat_of_decode decoded
  rw [integer.value, integer.numerator decoded, Nat.cast_mul,
    mul_div_cancel_right₀ _ positive.ne', ← cast_signed] at value
  exact_mod_cast value

/-- **The remainder of a division has the sign of the dividend and is exact.** -/
theorem remainder (integer : IsInteger x N) (positive : 0 < k) (small : k ≤ 2 ^ 53) :
    IsInteger (remainder x k) (N.tmod k) := by
  obtain ⟨d, decoded⟩ := isFinite_iff.1 integer.finite
  have numerator := integer.numerator decoded
  have least := exponent_ge decoded
  have rest : d.numerator % (k * d.denominator) = N.natAbs % k * d.denominator := by
    rw [numerator, Nat.mul_mod_mul_right]
  have few : N.natAbs % k * d.denominator < 2 ^ 53 := by
    have less : N.natAbs % k < k := Nat.mod_lt _ positive
    by_cases fraction : d.exponent < 0
    · calc N.natAbs % k * d.denominator ≤ d.numerator := rest ▸ Nat.mod_le _ _
        _ = d.mantissa := numerator_of_fraction fraction
        _ < 2 ^ 53 := mantissa_lt decoded
    · rw [(roundMagnitude_of_whole .down (by omega)).1, Nat.mul_one]
      omega
  have steps : (d.denominator : ℚ) * 2 ^ min d.exponent 0 = 1 := by
    rw [Dyadic.denominator, Nat.pow_eq, Nat.cast_pow, Nat.cast_ofNat, ← zpow_natCast,
      ← zpow_add₀ two_ne_zero, ← zpow_zero (2 : ℚ)]
    congr 1
    omega
  obtain ⟨finite', value⟩ := toRat_ofScaled few (q := min d.exponent 0) (by omega) (by omega)
  obtain ⟨finite'', value'⟩ := toRat_withSign finite' d.negative
  have remainders : N.tmod k = signed d.negative ((N.natAbs % k : ℕ) : ℤ) := by
    conv_lhs => rw [integer.signed_natAbs decoded]
    cases d.negative with
    | false => rfl
    | true => exact Int.neg_tmod _ _
  rw [Number.remainder, decoded]
  dsimp only
  rw [rest]
  refine ⟨finite'', value'.trans ?_⟩
  rw [value, Nat.cast_mul, mul_assoc, steps, mul_one, remainders, cast_signed]

end IsInteger

/-! ## Whole parts of quotients -/

/-- Nothing moves by more than half a step, whatever its sign. -/
theorem abs_nearestSigned_sub_le (v : ℚ) : |nearestSigned v - v| ≤ 2 ^ grid |v| / 2 := by
  have size : |nearestSigned v - v| = abs (nearest |v| - |v|) := by
    rcases le_total 0 v with above | below
    · rw [nearestSigned_of_nonneg above, abs_of_nonneg above]
    · have opposite := nearestSigned_neg (-v)
      rw [neg_neg, nearestSigned_of_nonneg (neg_nonneg.2 below)] at opposite
      rw [opposite, abs_of_nonpos below, abs_sub_comm (nearest (-v))]
      congr 1
      ring
  rw [size]
  exact abs_nearest_sub_le |v|

/-- A quotient of a whole number moves less than the quotients are apart. -/
theorem abs_nearestSigned_div_sub_lt {j : ℕ} (small : |N| ≤ 2 ^ 53) (low : 2 ^ j < k)
    (high : k < 2 ^ (j + 1)) (few : j ≤ 1074) :
    |nearestSigned (N / k : ℚ) - N / k| < 1 / k := by
  have positive : (0 : ℚ) < k := Nat.cast_pos.2 (Nat.zero_lt_of_lt low)
  rcases eq_or_ne N 0 with rfl | nonzero
  · rw [Int.cast_zero, zero_div, nearestSigned_of_nonneg le_rfl, nearest_zero, sub_zero, abs_zero]
    positivity
  have size : |(N / k : ℚ)| < 2 ^ (-(j : ℤ) + 53) := by
    have most : |(N : ℚ)| ≤ 2 ^ 53 := by exact_mod_cast small
    have less : (2 : ℚ) ^ j < k := by exact_mod_cast low
    rw [abs_div, abs_of_pos positive, div_lt_iff₀ positive, zpow_add₀ two_ne_zero, zpow_neg,
      zpow_natCast]
    calc |(N : ℚ)| ≤ 2 ^ 53 := most
      _ = (2 ^ j)⁻¹ * 2 ^ 53 * 2 ^ j := by field_simp
      _ < (2 ^ j)⁻¹ * 2 ^ (53 : ℤ) * k := mul_lt_mul_of_pos_left less (by positivity)
  have above : 0 < |(N / k : ℚ)| :=
    abs_pos.2 (div_ne_zero (Int.cast_ne_zero.2 nonzero) positive.ne')
  have fine : grid |(N / k : ℚ)| ≤ -(j : ℤ) := grid_le above size (by omega)
  have more : (k : ℚ) < 2 ^ (j + 1) := by exact_mod_cast high
  calc |nearestSigned (N / k : ℚ) - N / k| ≤ 2 ^ grid |(N / k : ℚ)| / 2 :=
        abs_nearestSigned_sub_le _
    _ ≤ 2 ^ (-(j : ℤ)) / 2 := by
        have finer := zpow_le_zpow_right₀ (a := (2 : ℚ)) (by norm_num) fine
        linarith
    _ = 1 / 2 ^ (j + 1) := by
        rw [zpow_neg, zpow_natCast, pow_succ]
        field_simp
    _ < 1 / k := one_div_lt_one_div_of_lt positive more

/-- **With up to 53 binary digits a quotient is not rounded across an integer.** -/
theorem floor_nearestSigned_div {j : ℕ} (small : |N| ≤ 2 ^ 53) (low : 2 ^ j < k)
    (high : k < 2 ^ (j + 1)) (few : j ≤ 1074) : ⌊nearestSigned (N / k : ℚ)⌋ = N / k := by
  have above : 0 < k := Nat.zero_lt_of_lt low
  have positive : (0 : ℚ) < k := Nat.cast_pos.2 above
  have floor : ⌊(N / k : ℚ)⌋ = N / k := Rat.floor_intCast_div_natCast N k
  have shrinks : |N / (k : ℤ)| ≤ 2 ^ 53 := (Int.abs_ediv_le_abs N k).trans small
  have near := abs_lt.1 (abs_nearestSigned_div_sub_lt small low high few)
  rw [Int.floor_eq_iff]
  constructor
  · have least : ((N / k : ℤ) : ℚ) ≤ N / k := floor ▸ Int.floor_le _
    rw [← nearestSigned_intCast shrinks]
    exact nearestSigned_mono least
  · -- the quotient itself is at least one part below the next integer
    have next : N + 1 ≤ (N / k + 1) * k := by
      have rest := Int.lt_ediv_add_one_mul_self N (Int.natCast_pos.2 above)
      omega
    have gap : (N : ℚ) / k + 1 / k ≤ (N / k : ℤ) + 1 := by
      rw [← add_div, div_le_iff₀ positive]
      exact_mod_cast next
    linarith [near.2]

/-- **The whole part of a quotient is exact.** -/
theorem IsInteger.floor_div {j : ℕ} (integer : IsInteger x N) (small : |N| ≤ 2 ^ 53)
    (divisor : IsInteger y k) (low : 2 ^ j < k) (high : k < 2 ^ (j + 1)) (few : j ≤ 1074) :
    IsInteger (floor (x / y)) (N / k) := by
  have above : 0 < k := Nat.zero_lt_of_lt low
  have same : toRat y = k := by rw [divisor.value, Int.cast_natCast]
  have positive : 0 < toRat y := same ▸ Nat.cast_pos.2 above
  have quotient : toRat x / toRat y = (N / k : ℚ) := by rw [integer.value, same]
  have ordinary : |(N / k : ℚ)| ≤ 2 ^ 53 := by
    have one : (1 : ℚ) ≤ k := by exact_mod_cast above
    rw [abs_div, Nat.abs_cast]
    exact (div_le_self (abs_nonneg _) one).trans (by exact_mod_cast small)
  obtain ⟨divided, value⟩ :=
    toRat_div integer.finite divisor.finite positive (quotient ▸ nearest_lt_of_le ordinary)
  have below := isInteger_floor divided
  rwa [value, quotient, floor_nearestSigned_div small low high few] at below

/-! ## Texts of whole numbers -/

/-- The sign and the digits of a whole number. -/
def textOfWhole (N : ℤ) : List Char :=
  if N < 0 then '-' :: digitsOf N.natAbs else digitsOf N.natAbs

/-- **The plain text of a whole number.** -/
theorem IsInteger.plain (integer : IsInteger x N) (short : N.natAbs < 10 ^ 21) :
    plain x = textOfWhole N := by
  obtain ⟨d, decoded⟩ := isFinite_iff.1 integer.finite
  have above : 0 < d.denominator := Nat.two_pow_pos _
  have numerator := integer.numerator decoded
  have rest : d.numerator % d.denominator = 0 := by rw [numerator, Nat.mul_mod_left]
  have digits : d.numerator / d.denominator = N.natAbs := by
    rw [numerator, Nat.mul_div_cancel _ above]
  have sign : (d.negative = true ∧ d.mantissa ≠ 0) ↔ N < 0 := by
    constructor
    · rintro ⟨negative, nonzero⟩
      have below := toRat_neg decoded negative (Nat.pos_of_ne_zero nonzero)
      rw [integer.value] at below
      exact_mod_cast below
    · intro below
      refine ⟨Bool.eq_false_or_eq_true d.negative |>.resolve_right fun positive => ?_,
        fun none => ?_⟩
      · have same := integer.signed_natAbs decoded
        rw [positive, signed, if_neg Bool.false_ne_true] at same
        omega
      · have zero : N.natAbs * d.denominator = 0 := by
          rw [← numerator, Dyadic.numerator, none, Nat.zero_mul]
        have nonzero : N.natAbs ≠ 0 := by omega
        exact nonzero ((Nat.mul_eq_zero.1 zero).resolve_right above.ne')
  rw [Number.plain, decoded]
  dsimp only
  have fits : d.numerator % d.denominator = 0 ∧ N.natAbs < Nat.pow 10 21 := ⟨rest, short⟩
  rw [Dyadic.plain, digits, textOfWhole, if_pos fits]
  simp only [sign]

end Infographic.Number
