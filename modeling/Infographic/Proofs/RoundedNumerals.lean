/-
# Infographic.Proofs.RoundedNumerals -- numbers rounded to decimal places

A numeral with some places stands for the nearest of the multiples of that power of ten
(`value_toPlaces?`), and reading it back gives the nearest float, as reading a literal always does
(`Literal.rounds_magnitude`).  Rounding to decimal places by scaling rounds three times: the scaled
number, the integer, and the number that is scaled back (`roundTo_right`, `roundTo_left`).  It keeps
the order of numbers (`roundTo_mono`).  The scale itself is exact up to `10 ^ 22` and otherwise off
by less than one in `2 ^ 50` (`power_ten`).
-/
import Infographic.Locale.NumberFormat
import Infographic.Proofs.ShortestDigits

namespace Infographic.Number

set_option autoImplicit false

variable {x y z : Float} {n : Numeral}

/-! ## Numerals of numbers -/

theorem Numeral.roundEven_eq (num : ℕ) {den : ℕ} (positive : 0 < den) :
    (roundEven num den : ℤ) = halfEven (num / den) := by
  have rest : Int.fract ((num : ℚ) / den) = (num % den : ℕ) / den :=
    Int.fract_div_natCast_eq_div_natCast_mod
  have floor : ⌊(num : ℚ) / den⌋ = (num / den : ℕ) := Rat.floor_natCast_div_natCast num den
  have above : (0 : ℚ) < den := Nat.cast_pos.2 positive
  have half : (1 / 2 : ℚ) < (num % den : ℕ) / den ↔ den < 2 * (num % den) := by
    rw [div_lt_div_iff₀ two_pos above, one_mul, mul_comm]
    exact_mod_cast Iff.rfl
  have equal : ((num % den : ℕ) / den : ℚ) = 1 / 2 ↔ 2 * (num % den) = den := by
    rw [div_eq_div_iff above.ne' two_ne_zero, one_mul, mul_comm]
    exact_mod_cast Iff.rfl
  have odd : ((num / den : ℕ) : ℤ) % 2 = 1 ↔ num / den % 2 = 1 := by omega
  unfold roundEven halfEven
  rw [rest, floor]
  simp only [half, equal, odd]
  split <;> rfl

/-- **The numeral of a number is the nearest one.** -/
theorem value_toPlaces? (finite : x.isFinite = true) (places : ℕ) :
    ∃ n, toPlaces? x places = some n ∧ n.Proper ∧ n.fraction.length = places ∧
      n.value = halfEven (|toRat x| * 10 ^ places) / 10 ^ places := by
  obtain ⟨d, decoded⟩ := isFinite_iff.1 finite
  refine ⟨Numeral.ofPlaces d places, by rw [toPlaces?, decoded], Numeral.proper_ofUnits _ _,
    Numeral.length_fraction_ofUnits _ _, ?_⟩
  have rounded := Numeral.roundEven_eq (d.numerator * Nat.pow 10 places)
    (show 0 < d.denominator from Nat.two_pow_pos _)
  rw [Nat.pow_eq, Nat.cast_mul, Nat.cast_pow, Nat.cast_ofNat, mul_div_right_comm,
    ← abs_toRat decoded] at rounded
  rw [Numeral.ofPlaces, Numeral.value_ofUnits, ← rounded, Int.cast_natCast, Nat.pow_eq]

theorem rounds_zero {v : ℚ} (tiny : nearest v = 0) : Rounds v 0.0 := by
  have form : toRat 0.0 = 0 := by
    have none : units (0.0 : Float).toModel.unpack = 0 := by decide +kernel
    rw [toRat, rat, none, Int.cast_zero, zero_div]
  refine ⟨fun _ => ⟨by decide +kernel, form.trans tiny.symm⟩, fun beyond => ?_⟩
  rw [tiny] at beyond
  exact absurd beyond (not_le.2 (by positivity))

/-! ## Numbers of literals -/

/-- A number with more than 310 digits before the point is beyond the floats. -/
theorem le_of_long {m : ℕ} {e : ℤ} (positive : 0 < m) (long : 310 < (digitsOf m).length + e) :
    (2 : ℚ) ^ 1024 ≤ m * 10 ^ e := by
  have least := (isLeading_digitsOf positive).le_digitsValue
  rw [digitsValue_digitsOf] at least
  have power : (2 : ℕ) ^ 1024 ≤ 10 ^ 310 := by decide +kernel
  calc (2 : ℚ) ^ 1024 ≤ 10 ^ (310 : ℕ) := by exact_mod_cast power
    _ = 10 ^ (310 : ℤ) := (zpow_natCast 10 310).symm
    _ ≤ 10 ^ (((digitsOf m).length - 1 : ℕ) + e) :=
        zpow_le_zpow_right₀ (by norm_num) (by omega)
    _ = (10 ^ ((digitsOf m).length - 1) : ℕ) * 10 ^ e := by
        rw [zpow_add₀ (by norm_num), zpow_natCast, Nat.cast_pow, Nat.cast_ofNat]
    _ ≤ m * 10 ^ e := mul_le_mul_of_nonneg_right (Nat.cast_le.2 least) (by positivity)

/-- A number with more than 330 zeros behind the point is nearer to zero than to any other float. -/
theorem lt_of_deep {m : ℕ} {e : ℤ} (deep : (digitsOf m).length + e ≤ -330) :
    (m * 10 ^ e : ℚ) < 2 ^ (-1075 : ℤ) := by
  have most := digitsValue_lt (allDigits_digitsOf m)
  rw [digitsValue_digitsOf] at most
  have power : (2 : ℕ) ^ 1075 ≤ 10 ^ 330 := by decide +kernel
  calc (m * 10 ^ e : ℚ) < (10 ^ (digitsOf m).length : ℕ) * 10 ^ e :=
        mul_lt_mul_of_pos_right (Nat.cast_lt.2 most) (by positivity)
    _ = 10 ^ ((digitsOf m).length + e) := by
        rw [zpow_add₀ (by norm_num), zpow_natCast, Nat.cast_pow, Nat.cast_ofNat]
    _ ≤ 10 ^ (-(330 : ℕ) : ℤ) := zpow_le_zpow_right₀ (by norm_num) deep
    _ = (10 ^ 330)⁻¹ := by rw [zpow_neg, zpow_natCast]
    _ ≤ (2 ^ 1075)⁻¹ := inv_anti₀ (by positivity) (by exact_mod_cast power)
    _ = 2 ^ (-1075 : ℤ) := by rw [← zpow_natCast, ← zpow_neg]; rfl

/-- The number a literal stands for, without its sign. -/
def Literal.value (l : Literal) : ℚ :=
  l.mantissa * 10 ^ l.scale

/-- **Reading a literal gives the nearest float.** -/
theorem Literal.rounds_magnitude (l : Literal) : Rounds l.value l.magnitude := by
  rw [value, magnitude]
  generalize l.mantissa = m
  generalize l.scale = e
  rw [show Nat.toDigits 10 m = digitsOf m from rfl]
  split
  · rename_i none
    refine rounds_zero ?_
    rw [none, Nat.cast_zero, zero_mul, nearest_zero]
  · rename_i nonzero
    split
    · rename_i long
      have beyond := le_of_long (Nat.pos_of_ne_zero nonzero) long
      exact ⟨fun below => absurd below (not_lt.2 (le_nearest_of_le beyond)), fun _ => rfl⟩
    · split
      · rename_i deep
        exact rounds_zero (nearest_eq_zero (by positivity) (lt_of_deep deep.le))
      · split
        · rename_i negative
          have rounds := rounds_ofScientific m true e.natAbs
          have power : (10 : ℚ) ^ e = (10 ^ e.natAbs)⁻¹ := by
            rw [← zpow_natCast, ← zpow_neg, Int.ofNat_natAbs_of_nonpos negative.le, neg_neg]
          rwa [if_pos rfl, div_eq_mul_inv, ← power] at rounds
        · rename_i nonneg
          have rounds := rounds_ofScientific m false e.natAbs
          rwa [if_neg Bool.false_ne_true, ← zpow_natCast, Int.natAbs_of_nonneg (not_lt.1 nonneg)]
            at rounds

/-- **Reading a numeral gives the nearest float.** -/
theorem rounds_toFloat (n : Numeral) : Rounds n.value n.toFloat := by
  have value : n.value = Literal.value ⟨false, n.whole, n.fraction, 0⟩ := by
    rw [Numeral.value, Literal.value, Literal.scale, Int.zero_sub, zpow_neg, zpow_natCast,
      div_eq_mul_inv]
    rfl
  rw [value]
  exact Literal.rounds_magnitude _

/-! ## Powers of ten -/

/-- Whether a float is `10 ^ n`, or less than one part in `2 ^ 50` away from it, or the infinity. -/
def nearPower (n : ℕ) (z : Float) : Bool :=
  match decode z with
  | .nan => false
  | .infinite negative => !negative
  | .finite d =>
      !d.negative &&
        (if n ≤ 22 then d.numerator = 10 ^ n * d.denominator
        else d.numerator * 2 ^ 50 ≤ 10 ^ n * d.denominator * (2 ^ 50 + 1) ∧
          10 ^ n * d.denominator * 2 ^ 50 ≤ d.numerator * (2 ^ 50 + 1))

/-- Whether all powers with `bits` more binary digits in the exponent are near: `acc` stands for
`10 ^ n` and `base` for `10 ^ weight`. -/
def sweep : ℕ → ℕ → Float → ℕ → Float → Bool
  | 0, n, acc, _, _ => nearPower n acc
  | bits + 1, n, acc, weight, base =>
      sweep bits n acc (2 * weight) (base * base) &&
        sweep bits (n + weight) (acc * base) (2 * weight) (base * base)

theorem powerFrom_zero (fuel : ℕ) (acc base : Float) : powerFrom (fuel + 1) acc base 0 = acc :=
  rfl

theorem nearPower_of_sweep {bits n weight k fuel : ℕ} {acc base : Float}
    (all : sweep bits n acc weight base = true) (few : k < 2 ^ bits) (enough : k < fuel) :
    nearPower (n + k * weight) (powerFrom fuel acc base k) = true := by
  induction bits generalizing n acc weight base k fuel with
  | zero =>
      obtain rfl : k = 0 := by omega
      obtain ⟨fuel, rfl⟩ : ∃ f, fuel = f + 1 := ⟨fuel - 1, by omega⟩
      rw [Nat.zero_mul, Nat.add_zero, powerFrom_zero]
      exact all
  | succ bits ih =>
      obtain ⟨fuel, rfl⟩ : ∃ f, fuel = f + 1 := ⟨fuel - 1, by omega⟩
      rw [sweep, Bool.and_eq_true] at all
      have half : k / 2 < 2 ^ bits := by omega
      have next (n : ℕ) (acc : Float)
          (rest : sweep bits n acc (2 * weight) (base * base) = true) :
          nearPower (n + k / 2 * (2 * weight))
            (if k / 2 = 0 then acc else powerFrom fuel acc (base * base) (k / 2)) = true := by
        split
        · rename_i last
          have done := ih rest half (show k / 2 < 1 by omega)
          rwa [last, powerFrom_zero, ← last] at done
        · exact ih rest half (by omega)
      rw [powerFrom]
      by_cases odd : k % 2 = 1
      · have exponent : n + weight + k / 2 * (2 * weight) = n + k * weight := by
          have parts : k = 2 * (k / 2) + 1 := by omega
          conv_rhs => rw [parts]
          ring
        rw [if_pos odd, ← exponent]
        exact next _ _ all.2
      · have exponent : n + k / 2 * (2 * weight) = n + k * weight := by
          have parts : k = 2 * (k / 2) := by omega
          conv_rhs => rw [parts]
          ring
        rw [if_neg odd, ← exponent]
        exact next _ _ all.1

theorem nearPower_power {n : ℕ} (few : n < 512) : nearPower n (power 10.0 n) = true := by
  have all : sweep 9 0 1.0 1 10.0 = true := by decide +kernel
  have near := nearPower_of_sweep all few (Nat.lt_succ_self n)
  rwa [Nat.zero_add, Nat.mul_one] at near

/-- **How near the scale is.**  A power of ten is infinite or finite and not below one; up to
`10 ^ 22` it is exact, and above it is off by less than one part in `2 ^ 50`. -/
theorem power_ten {n : ℕ} (few : n < 512) (finite : (power 10.0 n).isFinite = true) :
    (n ≤ 22 → toRat (power 10.0 n) = 10 ^ n) ∧
      toRat (power 10.0 n) * 2 ^ 50 ≤ 10 ^ n * (2 ^ 50 + 1) ∧
      10 ^ n * 2 ^ 50 ≤ toRat (power 10.0 n) * (2 ^ 50 + 1) := by
  obtain ⟨d, decoded⟩ := isFinite_iff.1 finite
  have near := nearPower_power few
  rw [nearPower, decoded] at near
  dsimp only at near
  rw [Bool.and_eq_true, Bool.not_eq_true'] at near
  obtain ⟨sign, near⟩ := near
  have value : toRat (power 10.0 n) = d.numerator / d.denominator := by
    refine (abs_of_nonneg ?_).symm.trans (abs_toRat decoded)
    rw [toRat]
    rcases unpack_of_decode decoded with ⟨positive, -, form⟩ | ⟨-, form⟩ <;> rw [form, sign]
    · exact div_nonneg (Int.cast_nonneg (size_pos positive _).le) (by positivity)
    · exact (zero_div _).ge
  have above : (0 : ℚ) < d.denominator := Nat.cast_pos.2 (Nat.two_pow_pos _)
  rw [value]
  by_cases small : n ≤ 22
  · rw [if_pos small, decide_eq_true_eq] at near
    have same : (d.numerator / d.denominator : ℚ) = 10 ^ n := by
      rw [near, Nat.cast_mul, Nat.cast_pow, Nat.cast_ofNat, mul_div_cancel_right₀ _ above.ne']
    rw [same]
    have positive : (0 : ℚ) ≤ 10 ^ n := by positivity
    exact ⟨fun _ => rfl, by linarith, by linarith⟩
  · rw [if_neg small, decide_eq_true_eq] at near
    refine ⟨fun few => absurd few small, ?_, ?_⟩
    · rw [div_mul_eq_mul_div, div_le_iff₀ above]
      have most : (d.numerator * 2 ^ 50 : ℚ) ≤ 10 ^ n * d.denominator * (2 ^ 50 + 1) := by
        exact_mod_cast near.1
      linarith
    · rw [div_mul_eq_mul_div, le_div_iff₀ above]
      have least : (10 ^ n * d.denominator * 2 ^ 50 : ℚ) ≤ d.numerator * (2 ^ 50 + 1) := by
        exact_mod_cast near.2
      linarith

theorem one_le_power {n : ℕ} (few : n < 512) (finite : (power 10.0 n).isFinite = true) :
    1 ≤ toRat (power 10.0 n) := by
  obtain ⟨exactly, -, least⟩ := power_ten few finite
  rcases Nat.eq_zero_or_pos n with rfl | positive
  · rw [exactly (by decide), pow_zero]
  · have ten : (10 : ℚ) ≤ 10 ^ n := by
      calc (10 : ℚ) = 10 ^ 1 := (pow_one _).symm
        _ ≤ 10 ^ n := pow_le_pow_right₀ (by norm_num) positive
    linarith

/-- From `10 ^ 309` on the scale is infinite. -/
theorem le_of_isFinite_power {n : ℕ} (few : n < 512) (finite : (power 10.0 n).isFinite = true) :
    n ≤ 308 := by
  obtain ⟨-, -, low⟩ := power_ten few finite
  have one := one_le_power few finite
  obtain ⟨d, decoded, canonical, value⟩ := decode_of_pos finite (by linarith)
  have below : toRat (power 10.0 n) < 2 ^ 1024 := by
    rw [value, ← not_le, ← large_iff canonical]
    exact (exponent_le decoded).not_gt
  by_contra large
  have order : (2 : ℕ) ^ 1024 * 2 ≤ 10 ^ 309 := by decide +kernel
  have order' : (2 : ℚ) ^ 1024 * 2 ≤ 10 ^ 309 := by exact_mod_cast order
  have more : (10 : ℚ) ^ 309 ≤ 10 ^ n := pow_le_pow_right₀ (by norm_num) (by omega)
  generalize (2 : ℚ) ^ 1024 = top at below order'
  have twice := order'.trans more
  linarith only [low, one, below, twice]

/-! ## Rounding by scaling -/

theorem isFinite_of_pack {u : Float.Model.UnpackedFloat}
    (finite : (Float.ofModel (.pack u)).isFinite = true) : u.isFinite = true := by
  cases u with
  | notANumber => exact absurd finite (by decide +kernel)
  | infinity sign => cases sign <;> exact absurd finite (by decide +kernel)
  | zero sign => rfl
  | finite sign m e h => rfl

theorem isFinite_of_mul (finite : (x * y).isFinite = true) :
    x.isFinite = true ∧ y.isFinite = true := by
  have product := isFinite_of_pack
    (u := Float.Model.UnpackedFloat.mul Float.Model.Format.binary64 x.toModel.unpack y.toModel.unpack)
    finite
  change x.toModel.unpack.isFinite = true ∧ y.toModel.unpack.isFinite = true
  generalize x.toModel.unpack = u, y.toModel.unpack = v at product
  cases u <;> cases v <;> first | exact ⟨rfl, rfl⟩ | exact absurd product Bool.false_ne_true

theorem isFinite_of_div (finite : (x / y).isFinite = true) : x.isFinite = true := by
  have quotient := isFinite_of_pack
    (u := Float.Model.UnpackedFloat.div Float.Model.Format.binary64 x.toModel.unpack y.toModel.unpack)
    finite
  change x.toModel.unpack.isFinite = true
  generalize x.toModel.unpack = u, y.toModel.unpack = v at quotient
  cases u <;> cases v <;> first | rfl | exact absurd quotient Bool.false_ne_true

theorem isFinite_of_round (finite : (round x).isFinite = true) : x.isFinite = true := by
  by_contra infinite
  rw [round, roundWith] at finite
  split at finite
  · rename_i d decoded
    exact infinite (isFinite_iff.2 ⟨d, decoded⟩)
  · exact infinite finite

theorem eq_of_roundTo {places : ℤ} (rounded : roundTo x places = some y) :
    y.isFinite = true ∧ y =
      if 0 ≤ places then round (x * power 10.0 places.natAbs) / power 10.0 places.natAbs
      else round (x / power 10.0 places.natAbs) * power 10.0 places.natAbs := by
  unfold roundTo at rounded
  dsimp only at rounded
  rw [Option.ite_none_right_eq_some] at rounded
  obtain ⟨finite, same⟩ := rounded
  have same := Option.some.inj same
  exact ⟨same ▸ finite, same.symm⟩

section

variable (finite : x.isFinite = true) (nonneg : 0 ≤ toRat x) {n : ℕ} (few : n < 512)

include finite nonneg few

/-- **Rounding to decimal places rounds three times.** -/
theorem roundTo_right (rounded : roundTo x n = some y) :
    (power 10.0 n).isFinite = true ∧
      toRat y = nearest (⌊nearest (toRat x * toRat (power 10.0 n)) + 1 / 2⌋ /
        toRat (power 10.0 n)) := by
  obtain ⟨result, made⟩ := eq_of_roundTo rounded
  rw [if_pos (Int.natCast_nonneg n), Int.natAbs_natCast] at made
  rw [made] at result
  have product := isFinite_of_round (isFinite_of_div result)
  have scale := (isFinite_of_mul product).2
  have one := one_le_power few scale
  have first := (rounds_mul finite scale nonneg (by linarith)).toRat_eq product
  have nonneg' : 0 ≤ toRat (x * power 10.0 n) := by
    rw [first]
    exact nearest_nonneg (mul_nonneg nonneg (by linarith))
  obtain ⟨whole, second⟩ := toRat_round product nonneg'
  have least : 0 ≤ toRat (round (x * power 10.0 n)) := by
    rw [second]
    exact_mod_cast Int.floor_nonneg.2 (by linarith)
  have third := (rounds_div whole scale least (by linarith)).toRat_eq result
  refine ⟨scale, ?_⟩
  rw [made, third, second, first]

/-- Rounding to a place in front of the point rounds three times too. -/
theorem roundTo_left (positive : 0 < n) (rounded : roundTo x (-n) = some y) :
    (power 10.0 n).isFinite = true ∧
      toRat y = nearest (⌊nearest (toRat x / toRat (power 10.0 n)) + 1 / 2⌋ *
        toRat (power 10.0 n)) := by
  obtain ⟨result, made⟩ := eq_of_roundTo rounded
  rw [if_neg (by omega), Int.natAbs_neg, Int.natAbs_natCast] at made
  rw [made] at result
  obtain ⟨whole, scale⟩ := isFinite_of_mul result
  have quotient := isFinite_of_round whole
  have one := one_le_power few scale
  have first := (rounds_div finite scale nonneg (by linarith)).toRat_eq quotient
  have nonneg' : 0 ≤ toRat (x / power 10.0 n) := by
    rw [first]
    exact nearest_nonneg (div_nonneg nonneg (by linarith))
  obtain ⟨-, second⟩ := toRat_round quotient nonneg'
  have least : 0 ≤ toRat (round (x / power 10.0 n)) := by
    rw [second]
    exact_mod_cast Int.floor_nonneg.2 (by linarith)
  have third := (rounds_mul whole scale least (by linarith)).toRat_eq result
  refine ⟨scale, ?_⟩
  rw [made, third, second, first]

end

/-- Rounded, scaled and rounded again, numbers keep their order. -/
theorem floor_nearest_mono {v w : ℚ} (nonneg : 0 ≤ v) (order : v ≤ w) :
    0 ≤ ⌊nearest v + 1 / 2⌋ ∧ ⌊nearest v + 1 / 2⌋ ≤ ⌊nearest w + 1 / 2⌋ := by
  have least := nearest_nonneg nonneg
  have most := nearest_mono nonneg order
  exact ⟨Int.floor_nonneg.2 (by linarith), Int.floor_le_floor (by linarith)⟩

/-- **Rounding to decimal places keeps the order.** -/
theorem roundTo_mono {x' y' : Float} (finite : x.isFinite = true) (nonneg : 0 ≤ toRat x)
    (finite' : x'.isFinite = true) (order : toRat x ≤ toRat x') {places : ℤ}
    (few : places.natAbs < 512) (rounded : roundTo x places = some y)
    (rounded' : roundTo x' places = some y') : 0 ≤ toRat y ∧ toRat y ≤ toRat y' := by
  have nonneg' := nonneg.trans order
  rcases Int.lt_or_le places 0 with left | right
  · obtain ⟨n, rfl⟩ : ∃ n : ℕ, places = -n := ⟨places.natAbs, by omega⟩
    rw [Int.natAbs_neg, Int.natAbs_natCast] at few
    obtain ⟨scale, same⟩ := roundTo_left finite nonneg few (by omega) rounded
    obtain ⟨-, same'⟩ := roundTo_left finite' nonneg' few (by omega) rounded'
    have one := one_le_power few scale
    obtain ⟨least, most⟩ := floor_nearest_mono (div_nonneg nonneg (by linarith))
      (div_le_div_of_nonneg_right order (show 0 ≤ toRat (power 10.0 n) by linarith))
    have least' := mul_nonneg (Int.cast_nonneg (R := ℚ) least)
      (show 0 ≤ toRat (power 10.0 n) by linarith)
    rw [same, same']
    exact ⟨nearest_nonneg least', nearest_mono least'
      (mul_le_mul_of_nonneg_right (Int.cast_le.2 most) (by linarith))⟩
  · obtain ⟨n, rfl⟩ := Int.eq_ofNat_of_zero_le right
    rw [Int.natAbs_natCast] at few
    obtain ⟨scale, same⟩ := roundTo_right finite nonneg few rounded
    obtain ⟨-, same'⟩ := roundTo_right finite' nonneg' few rounded'
    have one := one_le_power few scale
    obtain ⟨least, most⟩ := floor_nearest_mono (mul_nonneg nonneg (by linarith))
      (mul_le_mul_of_nonneg_right order (show 0 ≤ toRat (power 10.0 n) by linarith))
    have least' := div_nonneg (Int.cast_nonneg (R := ℚ) least)
      (show 0 ≤ toRat (power 10.0 n) by linarith)
    rw [same, same']
    exact ⟨nearest_nonneg least', nearest_mono least'
      (div_le_div_of_nonneg_right (Int.cast_le.2 most) (by linarith))⟩

/-! ## Bounds -/

theorem nearest_pow_ten {k : ℕ} (few : k ≤ 22) : nearest (10 ^ k) = 10 ^ k := by
  have small : 5 ^ k < 2 ^ 53 :=
    (Nat.pow_le_pow_right (by decide) few).trans_lt (by decide)
  have stays := nearest_eq_self small (e := k) (by omega)
  have same : ((5 ^ k : ℕ) : ℚ) * 2 ^ (k : ℤ) = 10 ^ k := by
    rw [Nat.cast_pow, Nat.cast_ofNat, zpow_natCast, ← mul_pow]
    norm_num
  rwa [same] at stays

/-- A scaled number that is at most a power of ten rounds to no larger integer. -/
theorem floor_nearest_le_pow {v : ℚ} {k : ℕ} (nonneg : 0 ≤ v) (few : k ≤ 22) (most : v ≤ 10 ^ k) :
    0 ≤ ⌊nearest v + 1 / 2⌋ ∧ ⌊nearest v + 1 / 2⌋ ≤ 10 ^ k := by
  obtain ⟨least, bound⟩ := floor_nearest_mono nonneg most
  refine ⟨least, bound.trans ?_⟩
  rw [nearest_pow_ten few, ← Int.lt_add_one_iff, Int.floor_lt]
  push_cast
  linarith

section

variable (finite : x.isFinite = true) (nonneg : 0 ≤ toRat x) {places : ℤ}
  (rounded : roundTo x places = some y)

include finite nonneg rounded

/-- **Rounding at places that are exact does not leave a power of ten.** -/
theorem roundTo_le_pow {k : ℕ} (most : toRat x ≤ 10 ^ k) (left : -k ≤ places)
    (right : places + k ≤ 22) (few : k ≤ 22) : toRat y ≤ 10 ^ k := by
  rcases Int.lt_or_le places 0 with negative | positive
  · obtain ⟨n, rfl⟩ : ∃ n : ℕ, places = -n := ⟨places.natAbs, by omega⟩
    obtain ⟨scale, same⟩ := roundTo_left finite nonneg (by omega) (by omega) rounded
    have ten := (power_ten (by omega) scale).1 (by omega)
    have above : (0 : ℚ) < 10 ^ n := by positivity
    have split : (10 : ℚ) ^ (k - n) * 10 ^ n = 10 ^ k := by
      rw [← pow_add, Nat.sub_add_cancel (by omega)]
    obtain ⟨least, bound⟩ := floor_nearest_le_pow (div_nonneg nonneg above.le)
      (k := k - n) (by omega) (by rwa [div_le_iff₀ above, split])
    rw [same, ten, ← nearest_pow_ten few, ← split]
    refine nearest_mono (mul_nonneg (Int.cast_nonneg least) above.le)
      (mul_le_mul_of_nonneg_right ?_ above.le)
    exact_mod_cast bound
  · obtain ⟨n, rfl⟩ := Int.eq_ofNat_of_zero_le positive
    obtain ⟨scale, same⟩ := roundTo_right finite nonneg (by omega) rounded
    have ten := (power_ten (by omega) scale).1 (by omega)
    have above : (0 : ℚ) < 10 ^ n := by positivity
    obtain ⟨least, bound⟩ := floor_nearest_le_pow (mul_nonneg nonneg above.le) (k := k + n)
      (by omega) (by rw [pow_add]; exact mul_le_mul_of_nonneg_right most above.le)
    rw [same, ten, ← nearest_pow_ten few]
    refine nearest_mono (div_nonneg (Int.cast_nonneg least) above.le) ?_
    rw [div_le_iff₀ above, ← pow_add]
    exact_mod_cast bound

/-- A number of at most a tenth is not rounded beyond one. -/
theorem roundTo_le_one (small : toRat x ≤ 1 / 10) (right : 0 ≤ places)
    (few : places.natAbs < 512) : toRat y ≤ 1 := by
  obtain ⟨n, rfl⟩ := Int.eq_ofNat_of_zero_le right
  rw [Int.natAbs_natCast] at few
  obtain ⟨scale, same⟩ := roundTo_right finite nonneg few rounded
  have one := one_le_power few scale
  -- half of the scale is a float too
  have half : nearest (toRat (power 10.0 n) / 2) = toRat (power 10.0 n) / 2 := by
    obtain ⟨d, -, canonical, value⟩ := decode_of_pos scale (by linarith)
    have coarse : -1073 ≤ d.exponent := by
      by_contra tiny
      have small : (d.mantissa * 2 ^ d.exponent : ℚ) < 2 ^ (53 : ℤ) * 2 ^ (-1073 : ℤ) := by
        refine mul_lt_mul ?_ (zpow_le_zpow_right₀ (by norm_num) (by omega)) (step_pos _)
          (by norm_num)
        exact_mod_cast canonical.small
      have below : (2 : ℚ) ^ (53 : ℤ) * 2 ^ (-1073 : ℤ) ≤ 1 := by
        rw [← zpow_add₀ two_ne_zero]
        exact zpow_le_one_of_nonpos₀ (by norm_num) (by norm_num)
      linarith
    have stays := nearest_eq_self canonical.small (e := d.exponent - 1) (by omega)
    have same : (d.mantissa * 2 ^ (d.exponent - 1) : ℚ) = toRat (power 10.0 n) / 2 := by
      rw [value, zpow_sub_one₀ two_ne_zero]
      ring
    rwa [same] at stays
  have scaled := nearest_mono (mul_nonneg nonneg (by linarith))
    (show toRat x * toRat (power 10.0 n) ≤ toRat (power 10.0 n) / 2 by nlinarith)
  have floor := Int.floor_le (nearest (toRat x * toRat (power 10.0 n)) + 1 / 2)
  have least := nearest_nonneg (mul_nonneg nonneg (by linarith : 0 ≤ toRat (power 10.0 n)))
  have unit := nearest_pow_ten (Nat.zero_le 22)
  rw [pow_zero] at unit
  rw [half] at scaled
  rw [same]
  refine (nearest_mono (div_nonneg (Int.cast_nonneg (Int.floor_nonneg.2 (by linarith)))
    (by linarith)) ?_).trans_eq unit
  rw [div_le_one (by linarith)]
  linarith

end

/-- **A rounded numeral stands for a rounded number.** -/
theorem value_roundedNumeral (finite : x.isFinite = true) (places : ℤ) :
    ∃ z, z.isFinite = true ∧ (roundTo x places).getD x = z ∧ (roundedNumeral x places).Proper ∧
      (roundedNumeral x places).fraction.length = places.toNat ∧
      (roundedNumeral x places).value =
        halfEven (|toRat z| * 10 ^ places.toNat) / 10 ^ places.toNat := by
  have finite' : ((roundTo x places).getD x).isFinite = true := by
    cases rounded : roundTo x places with
    | none => exact finite
    | some y => exact (eq_of_roundTo rounded).1
  obtain ⟨n, made, proper, length, value⟩ := value_toPlaces? finite' places.toNat
  refine ⟨_, finite', rfl, ?_⟩
  rw [roundedNumeral, made, Option.getD_some]
  exact ⟨proper, length, value⟩

/-- A number that is not rounded beyond a natural number has no numeral beyond it. -/
theorem value_roundedNumeral_le (finite : x.isFinite = true) (nonneg : 0 ≤ toRat x) {places : ℤ}
    (few : places.natAbs < 512) {bound : ℕ} (most : toRat x ≤ bound)
    (kept : ∀ y, roundTo x places = some y → toRat y ≤ bound) :
    (roundedNumeral x places).value ≤ bound := by
  obtain ⟨z, -, made, -, -, value⟩ := value_roundedNumeral finite places
  have mem : |toRat z| ≤ bound := by
    cases rounded : roundTo x places with
    | none =>
        rw [rounded, Option.getD_none] at made
        rw [← made, abs_of_nonneg nonneg]
        exact most
    | some y =>
        rw [rounded, Option.getD_some] at made
        obtain ⟨least, -⟩ := roundTo_mono finite nonneg finite le_rfl few rounded rounded
        rw [← made, abs_of_nonneg least]
        exact kept y rounded
  have above : (0 : ℚ) < 10 ^ places.toNat := by positivity
  rw [value, div_le_iff₀ above]
  have whole : halfEven (|toRat z| * 10 ^ places.toNat) ≤ (bound * 10 ^ places.toNat : ℕ) := by
    refine halfEven_le ?_
    push_cast
    exact mul_le_mul_of_nonneg_right mem above.le
  exact_mod_cast whole

/-! ## Significant digits and fixed places -/

/-- The number of significant digits that is used. -/
def digitLimit (count : ℕ) : ℤ := max 1 (min count 21)

theorem significant_of_pos (finite : x.isFinite = true) (positive : 0 < toRat x) (count : ℕ) :
    significant x count =
      (roundedNumeral x (digitLimit count - 1 - leadingExponent x)).trim 0 := by
  rw [significant, if_neg fun zero => positive.ne' ((beq_zero_iff finite positive.le).1 zero)]
  rfl

/-- **Significant digits do not lead beyond a power of ten.** -/
theorem value_significant_le (finite : x.isFinite = true) (nonneg : 0 ≤ toRat x) (count : ℕ)
    {k : ℕ} (few : k ≤ 21) (most : toRat x ≤ 10 ^ k) : (significant x count).value ≤ 10 ^ k := by
  rcases nonneg.eq_or_lt with zero | positive
  · rw [significant, if_pos ((beq_zero_iff finite nonneg).2 zero.symm)]
    have none : (⟨['0'], []⟩ : Numeral).value = 0 := by simp [Numeral.value, digitsValue]
    rw [none]
    positivity
  have above := lt_pow_leadingExponent finite positive
  have least := neg_le_leadingExponent finite positive
  have below := leadingExponent_lt finite positive (n := k + 1) (by omega)
    (most.trans_lt (pow_lt_pow_right₀ (by norm_num) (Nat.lt_succ_self k)))
  have digits : 1 ≤ digitLimit count ∧ digitLimit count ≤ 21 := by
    unfold digitLimit
    omega
  rw [significant_of_pos finite positive, Numeral.value_trim]
  -- a number below a tenth may need more places than there are exact powers of ten
  by_cases small : leadingExponent x ≤ -2
  · have tenth := (lt_tenth finite positive small).le
    have one := value_roundedNumeral_le finite nonneg
      (show (digitLimit count - 1 - leadingExponent x).natAbs < 512 by omega)
      (show toRat x ≤ (1 : ℕ) by push_cast; linarith) fun y rounded => by
        rw [Nat.cast_one]
        exact roundTo_le_one finite nonneg rounded tenth (by omega) (by omega)
    rw [Nat.cast_one] at one
    exact one.trans (one_le_pow₀ (by norm_num))
  · obtain ⟨j, inside, least', most'⟩ : ∃ j ≤ k, leadingExponent x ≤ j ∧ toRat x ≤ 10 ^ j ∧
        j ≤ leadingExponent x + 1 := by
      by_cases full : leadingExponent x < k
      · refine ⟨(leadingExponent x + 1).toNat, by omega, by omega, ?_, by omega⟩
        rw [← zpow_natCast, Int.toNat_of_nonneg (by omega)]
        exact above.le
      · exact ⟨k, le_rfl, by omega, most, by omega⟩
    have bound := value_roundedNumeral_le finite nonneg
      (show (digitLimit count - 1 - leadingExponent x).natAbs < 512 by omega)
      (show toRat x ≤ (10 ^ j : ℕ) by exact_mod_cast most'.1) fun y rounded => by
        have kept := roundTo_le_pow finite nonneg rounded most'.1 (by omega) (by omega) (by omega)
        exact_mod_cast kept
    push_cast at bound
    exact bound.trans (pow_le_pow_right₀ (by norm_num) inside)

/-- Fixed places do not lead beyond a power of ten either. -/
theorem value_fixed_le (finite : x.isFinite = true) (nonneg : 0 ≤ toRat x) {k : ℕ} (few : k ≤ 21)
    (most : toRat x ≤ 10 ^ k) : (fixed x 0 0).value ≤ 10 ^ k := by
  rw [fixed, Numeral.value_trim]
  have bound := value_roundedNumeral_le finite nonneg (show (0 : ℤ).natAbs < 512 by decide)
    (show toRat x ≤ (10 ^ k : ℕ) by exact_mod_cast most) fun y rounded => by
      have kept := roundTo_le_pow finite nonneg rounded most (by omega) (by omega) (by omega)
      exact_mod_cast kept
  exact_mod_cast bound

end Infographic.Number
