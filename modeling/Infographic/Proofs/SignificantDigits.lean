/-
# Infographic.Proofs.SignificantDigits -- how many digits are significant

From the first to the last digit that is not zero, a numeral has at most `count` digits exactly if
it stands for an integer below `10 ^ count` times a power of ten (`Numeral.spans_iff`).  A number is
cut to significant digits by scaling, and what is scaled back is printed exactly.  Where scaling is
exact, or near enough that printing undoes its error, the digits are bounded; where what is scaled
back is so large that no float near it has few digits, they never are (`significant_spans`).
-/
import Infographic.Proofs.RoundedNumerals

namespace Infographic.Number

set_option autoImplicit false

variable {ds : List Char}

/-! ## Zeros around digits -/

theorem digitChar_digitsValue {c : Char} (digit : isDigit c = true) :
    (digitsValue [c]).digitChar = c := by
  have few := digitsValue_singleton_le digit
  have all : ∀ d ≤ 9, (Nat.digitChar d).toNat = 48 + d := by decide
  have value : digitsValue [c] = 10 * 0 + (c.toNat - 48) := rfl
  simp only [isDigit, Bool.and_eq_true, decide_eq_true_eq] at digit
  have least : 48 ≤ c.toNat := digit.1
  refine Char.toNat_inj.1 ((all _ few).trans ?_)
  omega

/-- A digit is written as itself. -/
theorem digitsOf_digitsValue {c : Char} (digit : isDigit c = true) :
    digitsOf (digitsValue [c]) = [c] := by
  have few := digitsValue_singleton_le digit
  rw [digitsOf, Nat.toDigits_of_lt_base (by omega), digitChar_digitsValue digit]

theorem digitsOf_snoc {n d : ℕ} (positive : 0 < n) (few : d < 10) :
    digitsOf (n * 10 + d) = digitsOf n ++ digitsOf d := by
  rw [Nat.mul_comm]
  exact (Nat.toDigits_append_toDigits (by decide) positive few).symm

theorem digitsOf_mul_pow {n : ℕ} (positive : 0 < n) (k : ℕ) :
    digitsOf (n * 10 ^ k) = digitsOf n ++ List.replicate k '0' := by
  induction k with
  | zero => rw [Nat.pow_zero, Nat.mul_one, List.replicate_zero, List.append_nil]
  | succ k ih =>
      have next := digitsOf_snoc (n := n * 10 ^ k) (d := 0)
        (Nat.mul_pos positive (Nat.pow_pos (by decide))) (by decide)
      rw [Nat.add_zero, Nat.mul_assoc, ← Nat.pow_succ] at next
      rw [next, ih, List.append_assoc, List.replicate_succ']
      rfl

/-- Digits are zeros, or the digits of their number behind zeros. -/
theorem eq_zeros_append (digits : AllDigits ds) :
    ∃ front, ds = List.replicate front '0' ++
      if digitsValue ds = 0 then [] else digitsOf (digitsValue ds) := by
  induction ds using List.reverseRecOn with
  | nil => exact ⟨0, rfl⟩
  | append_singleton init c ih =>
      have digit := digits c (by simp)
      have few := digitsValue_singleton_le digit
      obtain ⟨front, made⟩ := ih (digits.of_subset (List.subset_append_left _ _))
      have value : digitsValue (init ++ [c]) = digitsValue init * 10 + digitsValue [c] :=
        (digitsValue_append init [c]).trans (by rw [List.length_singleton, Nat.pow_one])
      rw [value]
      by_cases first : digitsValue init = 0
      · rw [if_pos first, List.append_nil] at made
        rw [first, Nat.zero_mul, Nat.zero_add]
        by_cases last : digitsValue [c] = 0
        · have zero := digitChar_digitsValue digit
          rw [last] at zero
          refine ⟨front + 1, ?_⟩
          rw [if_pos last, made, ← zero, List.append_nil, List.replicate_succ']
          rfl
        · exact ⟨front, by rw [if_neg last, digitsOf_digitsValue digit, made]⟩
      · rw [if_neg first] at made
        refine ⟨front, ?_⟩
        rw [if_neg (by omega), digitsOf_snoc (Nat.pos_of_ne_zero first) (by omega),
          digitsOf_digitsValue digit, ← List.append_assoc, ← made]

/-! ## Spans of digits -/

namespace Numeral

variable {n : Numeral} {count : ℕ}

/-- From the first digit that is not zero to the last there are at most `count` digits. -/
def Spans (count : ℕ) (n : Numeral) : Prop :=
  ∃ front core back, n.whole ++ n.fraction =
    List.replicate front '0' ++ core ++ List.replicate back '0' ∧ core.length ≤ count

/-- **A numeral has few digits if its number does.** -/
theorem spans_iff (proper : n.Proper) :
    n.Spans count ↔ ∃ (k : ℕ) (e : ℤ), k < 10 ^ count ∧ n.value = k * 10 ^ e := by
  have all : AllDigits (n.whole ++ n.fraction) := proper.whole.append proper.fraction
  have places : (0 : ℚ) < 10 ^ n.fraction.length := by positivity
  constructor
  · rintro ⟨front, core, back, made, few⟩
    have digits : AllDigits core := all.of_subset (by rw [made]; simp)
    refine ⟨digitsValue core, back - n.fraction.length,
      (digitsValue_lt digits).trans_le (Nat.pow_le_pow_right (by decide) few), ?_⟩
    rw [value, made, digitsValue_append_zeros, digitsValue_zeros_append, zpow_sub₀ (by norm_num),
      zpow_natCast, zpow_natCast, ← mul_div_assoc]
    push_cast
    rfl
  · rintro ⟨k, e, few, value⟩
    have whole : ∃ k j : ℕ, k < 10 ^ count ∧ digitsValue (n.whole ++ n.fraction) = k * 10 ^ j := by
      rw [Numeral.value, div_eq_iff places.ne', mul_assoc, ← zpow_natCast,
        ← zpow_add₀ (by norm_num)] at value
      rcases Int.lt_or_le (e + n.fraction.length) 0 with small | large
      · obtain ⟨j, same⟩ : ∃ j : ℕ, e + n.fraction.length = -j :=
          ⟨(e + n.fraction.length).natAbs, by omega⟩
        refine ⟨_, 0, lt_of_le_of_lt ?_ few, (Nat.mul_one _).symm⟩
        rw [same, zpow_neg, zpow_natCast, ← div_eq_mul_inv] at value
        have bound : (digitsValue (n.whole ++ n.fraction) : ℚ) ≤ k := by
          rw [value]
          exact div_le_self (Nat.cast_nonneg k) (one_le_pow₀ (by norm_num))
        exact_mod_cast bound
      · obtain ⟨j, same⟩ := Int.eq_ofNat_of_zero_le large
        refine ⟨k, j, few, ?_⟩
        rw [same, zpow_natCast] at value
        exact_mod_cast value
    obtain ⟨k, j, few, same⟩ := whole
    obtain ⟨front, made⟩ := eq_zeros_append all
    rcases Nat.eq_zero_or_pos k with rfl | positive
    · rw [Nat.zero_mul] at same
      rw [if_pos same] at made
      exact ⟨front, [], 0, made.trans (List.append_nil _).symm, Nat.zero_le _⟩
    · have nonzero : k * 10 ^ j ≠ 0 := (Nat.mul_pos positive (Nat.pow_pos (by decide))).ne'
      rw [same, if_neg nonzero, digitsOf_mul_pow positive, ← List.append_assoc] at made
      refine ⟨front, digitsOf k, j, made, ?_⟩
      have some : 0 < count := Nat.pos_of_ne_zero fun none => by
        rw [none, Nat.pow_zero] at few
        omega
      exact (Nat.length_toDigits_le_iff (by decide) some).2 few

/-- An integer of at most `10 ^ count` has few digits, itself a power of ten. -/
theorem spans_of_le (proper : n.Proper) (some : 1 ≤ count) {k : ℤ} {e : ℤ} (least : 0 ≤ k)
    (most : k ≤ 10 ^ count) (value : n.value = k * 10 ^ e) : n.Spans count := by
  rw [spans_iff proper]
  rcases most.lt_or_eq with few | rfl
  · obtain ⟨k, rfl⟩ := Int.eq_ofNat_of_zero_le least
    exact ⟨k, e, by exact_mod_cast few, value⟩
  · refine ⟨1, count + e, Nat.one_lt_pow (by omega) (by decide), ?_⟩
    rw [value, zpow_add₀ (by norm_num), zpow_natCast]
    push_cast
    ring

end Numeral

/-! ## Scaling that is near enough -/

/-- Rounding a number makes it larger by no more than one part in `2 ^ 53`, or half of the least
positive float. -/
theorem nearest_le_add {v : ℚ} (nonneg : 0 ≤ v) :
    nearest v ≤ v + v / 2 ^ 53 + 2 ^ (-1075 : ℤ) := by
  have half := step_pos (-1075)
  rcases nonneg.eq_or_lt with rfl | positive
  · rw [nearest_zero, zero_div, zero_add, zero_add]
    exact half.le
  have near := (abs_le.1 (abs_nearest_sub_le v)).2
  have part : 0 < v / 2 ^ 53 := by positivity
  have step : (2 : ℚ) ^ grid v / 2 ≤ v / 2 ^ 53 + 2 ^ (-1075 : ℤ) := by
    rw [div_eq_mul_inv, ← zpow_sub_one₀ two_ne_zero]
    rcases le_total (Int.log 2 v - 52) (-1074) with small | large
    · have finest : grid v = -1074 := max_eq_right small
      rw [finest, show (-1074 - 1 : ℤ) = -1075 from rfl]
      linarith
    · have normal : grid v = Int.log 2 v - 52 := max_eq_left large
      have place := Int.zpow_log_le_self (b := 2) (by norm_num) positive
      have scaled : (2 : ℚ) ^ (grid v - 1) = 2 ^ Int.log 2 v / 2 ^ 53 := by
        rw [normal, ← zpow_natCast, ← zpow_sub₀ two_ne_zero]
        congr 1
        omega
      have below := div_le_div_of_nonneg_right place (show (0 : ℚ) ≤ 2 ^ 53 by norm_num)
      rw [scaled]
      push_cast at below
      linarith
  linarith

section

variable {v scale : ℚ} {count p : ℕ} (few : count ≤ 14)

include few

/-- A scale that is nearly exact does not lift a number beyond the next quarter. -/
theorem nearest_scaled_le (nonneg : 0 ≤ v) (below : v * 10 ^ p ≤ 10 ^ count) (above : 0 < scale)
    (high : scale * 2 ^ 50 ≤ 10 ^ p * (2 ^ 50 + 1)) :
    nearest (v * scale) ≤ 10 ^ count + 1 / 4 := by
  have digits : (10 : ℚ) ^ count ≤ 10 ^ 14 := pow_le_pow_right₀ (by norm_num) few
  have quarter : nearest (10 ^ count + 1 / 4) = 10 ^ count + 1 / 4 := by
    have small : 4 * 10 ^ count + 1 < 2 ^ 53 := by
      have bound : 10 ^ count ≤ 10 ^ 14 := Nat.pow_le_pow_right (by decide) few
      omega
    have stays := nearest_eq_self small (e := -2) (by norm_num)
    have same : ((4 * 10 ^ count + 1 : ℕ) : ℚ) * 2 ^ (-2 : ℤ) = 10 ^ count + 1 / 4 := by
      push_cast
      ring
    rwa [same] at stays
  refine (nearest_mono (by positivity) ?_).trans_eq quarter
  have scaled := mul_le_mul_of_nonneg_left high nonneg
  have more : v * (10 ^ p * (2 ^ 50 + 1)) ≤ 10 ^ count * (2 ^ 50 + 1) := by
    rw [← mul_assoc]
    exact mul_le_mul_of_nonneg_right below (by norm_num)
  norm_num at scaled more digits ⊢
  linarith

/-- What is scaled back and written at the same places is not lifted by as much as a half. -/
theorem nearest_div_mul_le (deep : p ≤ 308) (above : 0 < scale)
    (low : 10 ^ p * 2 ^ 50 ≤ scale * (2 ^ 50 + 1)) (nonneg : 0 ≤ v) (most : v ≤ 10 ^ count) :
    nearest (v / scale) * 10 ^ p < 10 ^ count + 1 / 2 := by
  have digits : (10 : ℚ) ^ count ≤ 10 ^ 14 := pow_le_pow_right₀ (by norm_num) few
  have places : (0 : ℚ) ≤ 10 ^ p := by positivity
  have rounded := mul_le_mul_of_nonneg_right (nearest_le_add (div_nonneg nonneg above.le)) places
  have ratio : v / scale * 10 ^ p ≤ 10 ^ count + 1 / 8 := by
    have back : (10 : ℚ) ^ p / scale ≤ 1 + 1 / 2 ^ 50 := by
      rw [div_le_iff₀ above]
      linarith
    calc v / scale * 10 ^ p = v * (10 ^ p / scale) := by rw [div_mul_eq_mul_div, mul_div_assoc]
      _ ≤ v * (1 + 1 / 2 ^ 50) := mul_le_mul_of_nonneg_left back nonneg
      _ ≤ 10 ^ count * (1 + 1 / 2 ^ 50) := mul_le_mul_of_nonneg_right most (by norm_num)
      _ ≤ 10 ^ count + 1 / 8 := by linarith
  have tiny : (2 : ℚ) ^ (-1075 : ℤ) * 10 ^ p ≤ 1 / 8 := by
    have power : 10 ^ p * 8 ≤ 2 ^ 1075 :=
      (Nat.mul_le_mul_right 8 (Nat.pow_le_pow_right (by decide) deep)).trans (by decide +kernel)
    have same : (2 : ℚ) ^ (-1075 : ℤ) = 1 / (2 ^ 1075 : ℕ) := by
      rw [Nat.cast_pow, Nat.cast_ofNat, one_div, ← zpow_natCast, ← zpow_neg]
      rfl
    rw [same, div_mul_eq_mul_div, one_mul, div_le_div_iff₀ (by positivity) (by norm_num), one_mul]
    exact_mod_cast power
  linarith

/-- **Near enough.**  A number that is scaled, rounded and scaled back by a scale that is nearly
exact has no more digits than its size allows. -/
theorem halfEven_scaled_le (deep : p ≤ 308) (nonneg : 0 ≤ v) (below : v * 10 ^ p ≤ 10 ^ count)
    (one : 1 ≤ scale) (high : scale * 2 ^ 50 ≤ 10 ^ p * (2 ^ 50 + 1))
    (low : 10 ^ p * 2 ^ 50 ≤ scale * (2 ^ 50 + 1)) :
    halfEven (nearest (⌊nearest (v * scale) + 1 / 2⌋ / scale) * 10 ^ p) ≤ 10 ^ count := by
  have above : 0 < scale := by linarith
  have first := nearest_scaled_le few nonneg below above high
  have second : ⌊nearest (v * scale) + 1 / 2⌋ ≤ 10 ^ count := by
    rw [← Int.lt_add_one_iff, Int.floor_lt]
    push_cast
    linarith
  have least : 0 ≤ ⌊nearest (v * scale) + 1 / 2⌋ := by
    have nonneg' := nearest_nonneg (mul_nonneg nonneg above.le)
    exact Int.floor_nonneg.2 (by linarith)
  generalize ⌊nearest (v * scale) + 1 / 2⌋ = b at second least
  have third := nearest_div_mul_le few deep above low (Int.cast_nonneg (R := ℚ) least)
    (by exact_mod_cast second)
  have near := (abs_le.1 (abs_halfEven_sub_le (nearest (b / scale) * 10 ^ p))).2
  have less : (halfEven (nearest (b / scale) * 10 ^ p) : ℚ) < 10 ^ count + 1 := by linarith
  refine Int.lt_add_one_iff.1 ?_
  exact_mod_cast less

end

/-! ## The digits of what is scaled back -/

/-- A float from `10 ^ 22` on is a whole number. -/
theorem exists_whole_of_le {y : Float} (finite : y.isFinite = true) (large : 10 ^ 22 ≤ toRat y) :
    ∃ m f : ℕ, 0 < m ∧ m < 2 ^ 53 ∧ toRat y = m * 2 ^ f := by
  obtain ⟨d, -, canonical, form⟩ := decode_of_pos finite (lt_of_lt_of_le (by positivity) large)
  have small : (d.mantissa : ℚ) < 2 ^ 53 := by exact_mod_cast canonical.small
  have least : (0 : ℚ) ≤ d.mantissa := Nat.cast_nonneg _
  obtain ⟨f, whole⟩ : ∃ f : ℕ, d.exponent = f := by
    refine Int.eq_ofNat_of_zero_le (not_lt.1 fun negative => ?_)
    have less : (2 : ℚ) ^ d.exponent ≤ 1 := zpow_le_one_of_nonpos₀ (by norm_num) negative.le
    nlinarith
  refine ⟨d.mantissa, f, Nat.pos_of_ne_zero canonical.positive, canonical.small, ?_⟩
  rw [form, whole, zpow_natCast]

/-- A multiple of a power of ten has its fives in the mantissa. -/
theorem pow_five_le {m f k n r : ℕ} (positive : 0 < m) (same : m * 2 ^ f = k * 10 ^ r)
    (places : n ≤ r) : 5 ^ n ≤ m := by
  have fives : 5 ^ n ∣ m * 2 ^ f := by
    rw [same]
    exact Dvd.dvd.mul_left ((pow_dvd_pow 5 places).trans (pow_dvd_pow_of_dvd (by decide) r)) k
  have coprime : Nat.Coprime (5 ^ n) (2 ^ f) := Nat.Coprime.pow _ _ (by decide)
  exact Nat.le_of_dvd positive (coprime.dvd_of_dvd_mul_right fives)

section

variable {x y : Float} {count : ℕ} (finite : x.isFinite = true) (positive : 0 < toRat x)
  (least : 1 ≤ count) (most : count ≤ 21)
  (rounded : roundTo x (count - 1 - leadingExponent x) = some y)

include finite positive least most

theorem significant_eq :
    significant x count = (roundedNumeral x (count - 1 - leadingExponent x)).trim 0 := by
  have limit : digitLimit count = count := by
    unfold digitLimit
    omega
  rw [significant_of_pos finite positive, limit]

theorem natAbs_places_lt : (count - 1 - leadingExponent x : ℤ).natAbs < 512 := by
  have low := neg_le_leadingExponent finite positive
  have high := leadingExponent_le finite positive
  omega

include rounded

/-- The digits are those of the number that is scaled back. -/
theorem value_significant :
    (significant x count).Proper ∧ 0 ≤ toRat y ∧ (significant x count).value =
      halfEven (toRat y * 10 ^ (count - 1 - leadingExponent x).toNat) /
        10 ^ (count - 1 - leadingExponent x).toNat := by
  obtain ⟨z, -, made, proper, -, value⟩ :=
    value_roundedNumeral finite (count - 1 - leadingExponent x)
  rw [rounded, Option.getD_some] at made
  obtain ⟨nonneg, -⟩ := roundTo_mono finite positive.le finite le_rfl
    (natAbs_places_lt finite positive least most) rounded rounded
  rw [significant_eq finite positive least most, Numeral.value_trim, value, ← made,
    abs_of_nonneg nonneg]
  exact ⟨proper.trim 0, nonneg, rfl⟩

/-- Digits that end behind the last exact place of a number from a tenth on. -/
theorem spans_right (low : -1 ≤ leadingExponent x) (high : leadingExponent x < count) :
    (significant x count).Spans count := by
  obtain ⟨proper, nonneg, value⟩ := value_significant finite positive least most rounded
  have above := lt_pow_leadingExponent finite positive
  obtain ⟨j, place⟩ := Int.eq_ofNat_of_zero_le (show 0 ≤ leadingExponent x + 1 by omega)
  rw [place, zpow_natCast] at above
  have kept := roundTo_le_pow finite positive.le rounded above.le (by omega) (by omega) (by omega)
  have scaled : 0 ≤ toRat y * 10 ^ (count - 1 - leadingExponent x).toNat := by positivity
  refine Numeral.spans_of_le proper least
    (k := halfEven (toRat y * 10 ^ (count - 1 - leadingExponent x).toNat))
    (e := -((count - 1 - leadingExponent x).toNat : ℤ))
    (le_halfEven (by rwa [Int.cast_zero])) (halfEven_le ?_) ?_
  · have digits : j + (count - 1 - leadingExponent x).toNat = count := by omega
    have power : (10 : ℚ) ^ j * 10 ^ (count - 1 - leadingExponent x).toNat = 10 ^ count := by
      rw [← pow_add, digits]
    push_cast
    rw [← power]
    exact mul_le_mul_of_nonneg_right kept (by positivity)
  · rw [value, zpow_neg, zpow_natCast, div_eq_mul_inv]

/-- Digits that end in front of the point, where scaling back gives a float exactly. -/
theorem spans_left (left : count ≤ leadingExponent x) {n : ℕ} (last : leadingExponent x < count + n)
    (exactly : 10 ^ count * 5 ^ n < 2 ^ 53) (few : count + n ≤ 22) :
    (significant x count).Spans count := by
  obtain ⟨proper, -, value⟩ := value_significant finite positive least most rounded
  have above := lt_pow_leadingExponent finite positive
  obtain ⟨k, place⟩ := Int.eq_ofNat_of_zero_le (show 0 ≤ leadingExponent x + 1 - count by omega)
  rw [show count - 1 - leadingExponent x = -(k : ℤ) by omega] at rounded value
  obtain ⟨scale, same⟩ := roundTo_left finite positive.le (by omega) (by omega) rounded
  rw [(power_ten (by omega) scale).1 (by omega)] at same
  have scaled : (0 : ℚ) < 10 ^ k := by positivity
  have digits : leadingExponent x + 1 = (count + k : ℕ) := by omega
  obtain ⟨least', most'⟩ := floor_nearest_le_pow (div_nonneg positive.le scaled.le) (k := count)
    (by omega) (by
      rw [div_le_iff₀ scaled, ← pow_add, ← zpow_natCast, ← digits]
      exact above.le)
  obtain ⟨b, whole⟩ := Int.eq_ofNat_of_zero_le least'
  rw [whole] at same most'
  -- without its twos the product fits into a mantissa
  have fits : b * 5 ^ k < 2 ^ 53 := by
    have bound : b ≤ 10 ^ count := by exact_mod_cast most'
    calc b * 5 ^ k ≤ 10 ^ count * 5 ^ k := Nat.mul_le_mul_right _ bound
      _ ≤ 10 ^ count * 5 ^ n :=
        Nat.mul_le_mul_left _ (Nat.pow_le_pow_right (by decide) (by omega))
      _ < 2 ^ 53 := exactly
  have stays := nearest_eq_self fits (e := k) (by omega)
  have product : ((b * 5 ^ k : ℕ) : ℚ) * 2 ^ (k : ℤ) = ((b : ℤ) : ℚ) * 10 ^ k := by
    rw [zpow_natCast, show (10 : ℚ) = 5 * 2 by norm_num, mul_pow]
    push_cast
    ring
  rw [product, ← same] at stays
  refine Numeral.spans_of_le proper least (e := k) (Int.natCast_nonneg b) most' ?_
  have none : (-(k : ℤ)).toNat = 0 := by omega
  have integral : toRat y = ((b * 10 ^ k : ℤ) : ℚ) := by
    rw [stays]
    push_cast
    rfl
  rw [value, none, pow_zero, mul_one, div_one, integral, halfEven_intCast, zpow_natCast]
  push_cast
  rfl

/-- Digits of a small number: the error of the scale is undone by rounding, and that of scaling back
by printing. -/
theorem spans_small (small : leadingExponent x ≤ -2) (few : count ≤ 14) :
    (significant x count).Spans count := by
  obtain ⟨proper, nonneg, value⟩ := value_significant finite positive least most rounded
  have above := lt_pow_leadingExponent finite positive
  have fits := natAbs_places_lt finite positive least most
  obtain ⟨p, place⟩ := Int.eq_ofNat_of_zero_le (show 0 ≤ count - 1 - leadingExponent x by omega)
  rw [place] at rounded value fits
  rw [Int.toNat_natCast] at value
  rw [Int.natAbs_natCast] at fits
  obtain ⟨scale, same⟩ := roundTo_right finite positive.le fits rounded
  obtain ⟨-, high, low⟩ := power_ten fits scale
  have below : toRat x * 10 ^ p ≤ 10 ^ count := by
    have digits : leadingExponent x + 1 + p = count := by omega
    calc toRat x * 10 ^ p ≤ 10 ^ (leadingExponent x + 1) * 10 ^ p :=
          mul_le_mul_of_nonneg_right above.le (by positivity)
      _ = 10 ^ count := by
          rw [← zpow_natCast, ← zpow_add₀ (by norm_num), digits, zpow_natCast]
  have kept := halfEven_scaled_le few (le_of_isFinite_power fits scale) positive.le below
    (one_le_power fits scale) high low
  rw [← same] at kept
  refine Numeral.spans_of_le proper least (e := -(p : ℤ)) (le_halfEven ?_) kept ?_
  · rw [Int.cast_zero]
    positivity
  · rw [value, zpow_neg, zpow_natCast, div_eq_mul_inv]

/-- What is scaled back beyond all the floats with few digits is none of them. -/
theorem not_spans_large (large : 10 ^ (count + 22) ≤ toRat y) :
    ¬(significant x count).Spans count := by
  obtain ⟨proper, nonneg, value⟩ := value_significant finite positive least most rounded
  have beyond : (10 : ℚ) ^ 22 ≤ 10 ^ (count + 22) := pow_le_pow_right₀ (by norm_num) (by omega)
  obtain ⟨m, f, some, small, whole⟩ :=
    exists_whole_of_le (eq_of_roundTo rounded).1 (beyond.trans large)
  -- all the digits of an integer are printed
  have integral : toRat y * 10 ^ (count - 1 - leadingExponent x).toNat =
      ((m * 2 ^ f * 10 ^ (count - 1 - leadingExponent x).toNat : ℤ) : ℚ) := by
    rw [whole]
    push_cast
    rfl
  rw [integral, halfEven_intCast, ← integral, mul_div_cancel_right₀ _ (by positivity)] at value
  rw [Numeral.spans_iff proper, value]
  rintro ⟨k, q, few, same⟩
  have few' : (k : ℚ) < 10 ^ count := by exact_mod_cast few
  have places : 22 < q := by
    by_contra short
    have power : (10 : ℚ) ^ q ≤ 10 ^ 22 := by
      rw [← zpow_natCast]
      exact zpow_le_zpow_right₀ (by norm_num) (not_lt.1 short)
    have less : (k : ℚ) * 10 ^ q < 10 ^ count * 10 ^ 22 :=
      mul_lt_mul few' power (ten_pos q) (by positivity)
    rw [same, pow_add] at large
    exact absurd large (not_le.2 less)
  obtain ⟨r, rfl⟩ := Int.eq_ofNat_of_zero_le (show 0 ≤ q by omega)
  rw [whole, zpow_natCast] at same
  have size := pow_five_le some (by exact_mod_cast same) (show 23 ≤ r by omega)
  have order : 2 ^ 53 < 5 ^ 23 := by decide
  omega

end

/-! ## Significant digits -/

section

variable {x y : Float} {count : ℕ}

/-- No zero is printed at the end of a fraction. -/
theorem getLast?_fraction_significant (x : Float) (count : ℕ) :
    (significant x count).fraction.getLast? ≠ some '0' := by
  rw [significant]
  split
  · exact Option.some_ne_none _ |>.symm
  · exact getLast?_stripZeros _

theorem leadingExponent_zero (finite : x.isFinite = true) (zero : toRat x = 0) :
    leadingExponent x = 0 := by
  obtain ⟨d, decoded⟩ := isFinite_iff.1 finite
  have size := abs_toRat decoded
  rw [zero, abs_zero, Dyadic.numerator_div_denominator, zero_eq_mul,
    or_iff_left (step_pos _).ne', Nat.cast_eq_zero] at size
  rw [leadingExponent, decoded]
  exact if_pos size

/-- **Significant digits are bounded, as far as scaling back is exact or its error is not printed.**
A fraction never ends in zero.  A number from a tenth on, and any number for up to fourteen digits,
has no more digits than asked for if it is below `10 ^ count`, or below `10 ^ (count + n)` where the
multiples of `10 ^ n` with that many digits are floats.  What is scaled back to `10 ^ (count + 22)`
or more always has more digits. -/
theorem significant_spans (finite : x.isFinite = true) (nonneg : 0 ≤ toRat x) (least : 1 ≤ count)
    (most : count ≤ 21) (rounded : roundTo x (count - 1 - leadingExponent x) = some y) :
    (significant x count).fraction.getLast? ≠ some '0' ∧
    (1 / 10 ≤ toRat x ∨ count ≤ 14 → ∀ n, n = 0 ∨ 10 ^ count * 5 ^ n < 2 ^ 53 →
      toRat x < 10 ^ (count + n) → (significant x count).Spans count) ∧
    (10 ^ (count + 22) ≤ toRat y → ¬(significant x count).Spans count) := by
  refine ⟨getLast?_fraction_significant x count, ?_⟩
  rcases nonneg.eq_or_lt with zero | positive
  · have written : significant x count = ⟨['0'], []⟩ :=
      if_pos ((beq_zero_iff finite nonneg).2 zero.symm)
    rw [written]
    refine ⟨fun _ _ _ _ => ⟨1, [], 0, rfl, Nat.zero_le _⟩, fun large => ?_⟩
    have none := leadingExponent_zero finite zero.symm
    have small := roundTo_le_pow finite nonneg rounded (k := 0) (by rw [← zero, pow_zero]; norm_num)
      (by omega) (by omega) (by omega)
    have more : (10 : ℚ) ^ 0 < 10 ^ (count + 22) := pow_lt_pow_right₀ (by norm_num) (by omega)
    exact absurd (large.trans small) (not_le.2 more)
  · refine ⟨fun near n fits below => ?_, not_spans_large finite positive least most rounded⟩
    have few : count + n ≤ 22 := by
      rcases fits with rfl | fits
      · omega
      · by_contra many
        have fives : 5 ^ (count + n) ≤ 10 ^ count * 5 ^ n := by
          rw [Nat.pow_add]
          exact Nat.mul_le_mul_right _ (Nat.pow_le_pow_left (by decide) count)
        have size : 5 ^ 23 ≤ 5 ^ (count + n) := Nat.pow_le_pow_right (by decide) (by omega)
        have order : 2 ^ 53 < 5 ^ 23 := by decide
        omega
    have last := leadingExponent_lt finite positive few below
    rcases Int.lt_or_le (leadingExponent x) count with inside | left
    · rcases Int.lt_or_le (leadingExponent x) (-1) with small | right
      · have tenth := lt_tenth finite positive (by omega)
        exact spans_small finite positive least most rounded (by omega)
          (near.resolve_left (not_le.2 tenth))
      · exact spans_right finite positive least most rounded right inside
    · exact spans_left finite positive least most rounded left (by exact_mod_cast last)
        (fits.resolve_left fun none => by omega) few

/-- The theorem at a number that is cut in front of the point. -/
theorem significant_spans_thousands :
    (123456.0 : Float).isFinite = true ∧ toRat 123456.0 = 123456 ∧
      (roundTo 123456.0 (3 - 1 - leadingExponent 123456.0)).isSome = true ∧
      (significant 123456.0 3).Spans 3 ∧
      significant 123456.0 3 = ⟨['1', '2', '3', '0', '0', '0'], []⟩ := by
  have finite : (123456.0 : Float).isFinite = true := by decide +kernel
  have value : toRat 123456.0 = 123456 := by
    have size : units (123456.0 : Float).toModel.unpack = 123456 * 2 ^ 1074 := by decide +kernel
    rw [toRat, rat, size, Int.cast_mul, Int.cast_pow, Int.cast_ofNat, Int.cast_ofNat,
      mul_div_cancel_right₀ _ (by positivity)]
  have some : (roundTo 123456.0 (3 - 1 - leadingExponent 123456.0)).isSome = true := by
    decide +kernel
  obtain ⟨y, rounded⟩ := Option.isSome_iff_exists.1 some
  have spans := (significant_spans finite (by rw [value]; norm_num) (show 1 ≤ 3 by decide)
    (by decide) rounded).2.1 (.inr (by decide)) 3 (.inr (by decide)) (by rw [value]; norm_num)
  exact ⟨finite, value, some, spans, by decide +kernel⟩

/-- What is scaled back to a multiple of a large power of ten is not a float, and all the digits of
the float beside it are printed. -/
theorem not_significant_spans :
    ¬ ∀ (x y : Float) (count : ℕ), x.isFinite = true → 0 ≤ toRat x → 1 ≤ count → count ≤ 21 →
      roundTo x (count - 1 - leadingExponent x) = some y →
        (significant x count).Spans count := by
  intro all
  have nonneg : 0 ≤ toRat 1.23e25 := by
    have size : 0 ≤ units (1.23e25 : Float).toModel.unpack := by decide +kernel
    exact div_nonneg (Int.cast_nonneg size) (by positivity)
  have some : (roundTo 1.23e25 (3 - 1 - leadingExponent 1.23e25)).isSome = true := by
    decide +kernel
  obtain ⟨y, rounded⟩ := Option.isSome_iff_exists.1 some
  have written : significant 1.23e25 3 = ⟨"12299999999999998129340416".toList, []⟩ := by
    decide +kernel
  obtain ⟨front, core, back, made, few⟩ :=
    all 1.23e25 y 3 (by decide +kernel) nonneg (by decide) (by decide) rounded
  rw [written, List.append_nil] at made
  dsimp only at made
  have length := congrArg List.length made
  rw [show "12299999999999998129340416".toList.length = 26 by decide, List.length_append,
    List.length_append, List.length_replicate, List.length_replicate] at length
  -- neither the first nor the last digit is zero
  cases front with
  | succ front =>
      have first := congrArg List.head? made
      rw [List.replicate_succ, List.cons_append, List.cons_append, List.head?_cons] at first
      exact absurd first (by decide)
  | zero =>
      cases back with
      | succ back =>
          have last := congrArg List.getLast? made
          rw [List.replicate_succ', ← List.append_assoc, List.getLast?_concat] at last
          exact absurd last (by decide)
      | zero => omega

end

end Infographic.Number
