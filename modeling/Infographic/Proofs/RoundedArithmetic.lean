/-
# Infographic.Proofs.RoundedArithmetic -- what the operations on floats compute

A product, a quotient, a natural number and a decimal literal are the nearest floats of the exact
results, or infinite where those are beyond all floats (`Rounds`, `rounds_pack`, `rounds_mul`,
`rounds_div`, `rounds_ofNat`, `rounds_ofScientific`).  Rounding to an integer is exact
(`toRat_round`).
-/
import Mathlib.Algebra.Order.Field.Power
import Infographic.Proofs.NearestFloats

namespace Infographic.Number

set_option autoImplicit false

open Float.Model (Format UnpackedFloat totalExponent)
open Float.Model.UnpackedFloat

/-! ## Floats as fractions -/

/-- A float as a fraction; zero for what is not finite. -/
def toRat (x : Float) : ℚ := rat x.toModel.unpack

variable {x y z : Float} {u : UnpackedFloat} {v w q : ℚ} {m n : ℕ} {e f : ℤ}

theorem isNaN_eq_false_of_isFinite (finite : x.isFinite = true) : x.isNaN = false := by
  refine Bool.eq_false_iff.2 fun nan => ?_
  have same : x.isFinite = x.toModel.unpack.isFinite := rfl
  rw [same, isNaN_iff.1 nan] at finite
  exact Bool.false_ne_true finite

theorem toRat_le_toRat_iff :
    toRat x ≤ toRat y ↔ units x.toModel.unpack ≤ units y.toModel.unpack := by
  rw [toRat, toRat, rat, rat, div_le_div_iff_of_pos_right (by positivity), Int.cast_le]

/-- Finite floats are compared as fractions. -/
theorem le_iff_toRat (first : x.isFinite = true) (second : y.isFinite = true) :
    x ≤ y ↔ toRat x ≤ toRat y := by
  rw [le_iff (isNaN_eq_false_of_isFinite first) (isNaN_eq_false_of_isFinite second),
    rank_stored (stored_unpack first), rank_stored (stored_unpack second), toRat_le_toRat_iff,
    Prod.Lex.toLex_le_toLex]
  simp

theorem rat_negative (h : 0 < m) : rat (.finite .negative m e h) < 0 := by
  refine div_neg_of_neg_of_pos ?_ (by positivity)
  exact Int.cast_lt_zero.2 (Int.neg_neg_of_pos (size_pos h e))

/-- A finite number that is not negative. -/
theorem unpack_cases (finite : x.isFinite = true) (positive : 0 ≤ toRat x) :
    (∃ sign, x.toModel.unpack = .zero sign ∧ toRat x = 0) ∨
      ∃ m e h, x.toModel.unpack = .finite .positive m e h ∧ Canonical m e ∧
        toRat x = m * 2 ^ e := by
  have stored := stored_unpack finite
  rw [toRat] at positive ⊢
  cases form : x.toModel.unpack with
  | notANumber => exact (form ▸ stored).elim
  | infinity sign => exact (form ▸ stored).elim
  | zero sign => exact .inl ⟨sign, rfl, zero_div _⟩
  | finite sign m e h =>
      rw [form] at stored positive
      have canonical : Canonical m e := stored
      cases sign with
      | negative => exact absurd positive (not_le.2 (rat_negative h))
      | positive => exact .inr ⟨m, e, h, rfl, canonical, rat_finite h canonical.least⟩

theorem beq_zero_iff (finite : x.isFinite = true) (nonneg : 0 ≤ toRat x) :
    (x == 0.0) = true ↔ toRat x = 0 := by
  have same : (x == 0.0) = x.toModel.unpack.beq (.zero .positive) := rfl
  rw [same]
  rcases unpack_cases finite nonneg with ⟨sign, form, none⟩ | ⟨m, e, h, form, -, value⟩ <;>
    rw [form]
  · exact iff_of_true rfl none
  · refine iff_of_false Bool.false_ne_true ?_
    have positive : (0 : ℚ) < m * 2 ^ e := mul_pos (Nat.cast_pos.2 h) (step_pos e)
    rw [value]
    exact positive.ne'

/-! ## Rounded results -/

/-- A float is the nearest one to a number, or the infinity if there is no such. -/
structure Rounds (v : ℚ) (z : Float) : Prop where
  near : nearest v < 2 ^ 1024 → z.isFinite = true ∧ toRat z = nearest v
  above : 2 ^ 1024 ≤ nearest v → z = infinity

theorem unpack_infinity : infinity.toModel.unpack = .infinity .positive := by
  rw [unpack_eq, show decode infinity = .infinite false by decide +kernel]
  rfl

theorem Rounds.isFinite_iff (rounds : Rounds v z) : z.isFinite = true ↔ nearest v < 2 ^ 1024 := by
  refine ⟨fun finite => not_le.1 fun beyond => ?_, fun below => (rounds.near below).1⟩
  rw [rounds.above beyond] at finite
  exact absurd finite (by decide +kernel)

theorem Rounds.toRat_eq (rounds : Rounds v z) (finite : z.isFinite = true) :
    toRat z = nearest v :=
  (rounds.near (rounds.isFinite_iff.1 finite)).2

/-- What is stored has its number in its bits unless that is beyond the largest float. -/
theorem large_iff (canonical : Canonical m e) : 971 < e ↔ (2 : ℚ) ^ 1024 ≤ m * 2 ^ e := by
  have limit (i j : ℤ) (sum : i + j = (1024 : ℕ)) : (2 : ℚ) ^ i * 2 ^ j = 2 ^ 1024 := by
    rw [← zpow_add₀ (by norm_num), sum, zpow_natCast]
  constructor
  · intro large
    have normal : 2 ^ 52 ≤ m := canonical.normal.resolve_right (by omega)
    rw [← limit 52 972 rfl]
    refine mul_le_mul ?_ (zpow_le_zpow_right₀ (by norm_num) large) (step_pos _).le
      (Nat.cast_nonneg m)
    exact_mod_cast normal
  · intro beyond
    by_contra small
    have below : (m : ℚ) * 2 ^ e < 2 ^ (53 : ℤ) * 2 ^ (971 : ℤ) := by
      refine mul_lt_mul ?_ (zpow_le_zpow_right₀ (by norm_num) (not_lt.1 small)) (step_pos _)
        (by norm_num)
      exact_mod_cast canonical.small
    rw [limit 53 971 rfl] at below
    exact absurd below (not_lt.2 beyond)

/-- In its bits a rounded number is the nearest float. -/
theorem rounds_pack (near : IsNearest u v) (positive : 0 ≤ v) :
    Rounds v (.ofModel (.pack u)) := by
  obtain ⟨stored, same⟩ := near
  have least : 0 ≤ rat u := same ▸ nearest_nonneg positive
  cases u with
  | notANumber => exact stored.elim
  | infinity sign => exact stored.elim
  | zero sign =>
      have form : (Float.ofModel (.pack (.zero sign))).toModel.unpack = .zero sign :=
        unpack_pack_zero sign
      have zero : nearest v = 0 := same ▸ zero_div _
      have value : toRat (.ofModel (.pack (.zero sign))) = 0 := by
        rw [toRat, form]
        exact zero_div _
      refine ⟨fun _ => ⟨congrArg UnpackedFloat.isFinite form, value.trans zero.symm⟩, ?_⟩
      rw [zero]
      exact fun beyond => absurd beyond (not_le.2 (by positivity))
  | finite sign m e h =>
      have canonical : Canonical m e := stored
      have form : (Float.ofModel (.pack (.finite sign m e h))).toModel.unpack = _ :=
        unpack_pack_finite sign h canonical
      cases sign with
      | negative => exact absurd least (not_le.2 (rat_negative h))
      | positive =>
          have large := large_iff canonical
          rw [← rat_finite h canonical.least, same] at large
          constructor
          · intro below
            rw [if_neg fun top => absurd (large.1 top) (not_le.2 below)] at form
            exact ⟨congrArg UnpackedFloat.isFinite form, (congrArg rat form).trans same⟩
          · intro beyond
            rw [if_pos (large.2 beyond)] at form
            exact eq_of_unpack_infinity form unpack_infinity

/-! ## Products and quotients -/

/-- **A product is rounded once.** -/
theorem rounds_mul (first : x.isFinite = true) (second : y.isFinite = true) (low : 0 ≤ toRat x)
    (low' : 0 ≤ toRat y) : Rounds (toRat x * toRat y) (x * y) := by
  refine rounds_pack ?_ (mul_nonneg low low')
  rcases unpack_cases first low with ⟨sign, form, none⟩ | ⟨m, e, h, form, canonical, value⟩ <;>
    rcases unpack_cases second low' with ⟨sign', form', none'⟩ |
      ⟨n, f, h', form', canonical', value'⟩ <;> rw [form, form']
  · rw [none, zero_mul]
    exact isNearest_zero _
  · rw [none, zero_mul]
    exact isNearest_zero _
  · rw [none', mul_zero]
    exact isNearest_zero _
  · have normal : 2 ^ 52 ≤ m * n ∨ e + f ≤ -1074 := by
      have one := Nat.mul_le_mul_left m (Nat.one_le_iff_ne_zero.2 canonical'.positive)
      have one' := Nat.mul_le_mul_right n (Nat.one_le_iff_ne_zero.2 canonical.positive)
      have first := canonical.normal
      have second := canonical'.normal
      omega
    have near := isNearest_roundWithAccuracy (holds_natCast (m * n)) (Nat.cast_nonneg _) normal
    have same : ((m * n : ℕ) : ℚ) * 2 ^ (e + f) = toRat x * toRat y := by
      rw [value, value', Nat.cast_mul, zpow_add₀ (by norm_num)]
      ring
    exact same ▸ near

/-- What is left over of a division tells its bits. -/
theorem holds_accuracyOfFraction (m : ℕ) (positive : 0 < n) :
    Holds (.ofMantissaAndAccuracy (m / n) (accuracyOfFraction (m % n) n)) (m / n) := by
  have rest : Int.fract ((m : ℚ) / n) = (m % n : ℕ) / n :=
    Int.fract_div_natCast_eq_div_natCast_mod
  have above : (0 : ℚ) < n := Nat.cast_pos.2 positive
  have half : (1 / 2 : ℚ) ≤ (m % n : ℕ) / n ↔ n ≤ 2 * (m % n) := by
    rw [div_le_div_iff₀ two_pos above, one_mul, mul_comm]
    exact_mod_cast Iff.rfl
  have equal : ((m % n : ℕ) / n : ℚ) = 1 / 2 ↔ 2 * (m % n) = n := by
    rw [div_eq_div_iff above.ne' two_ne_zero, one_mul, mul_comm]
    exact_mod_cast Iff.rfl
  have none : ((m % n : ℕ) / n : ℚ) = 0 ↔ m % n = 0 := by
    rw [div_eq_zero_iff, or_iff_left above.ne', Nat.cast_eq_zero]
  have floor : ⌊(m : ℚ) / n⌋ = (m / n : ℕ) := Rat.floor_natCast_div_natCast m n
  refine ⟨by rw [mantissa_ofMantissaAndAccuracy, floor], ?_, ?_⟩
  · rw [rest, half, accuracyOfFraction]
    split
    · rename_i zero
      exact iff_of_false Bool.false_ne_true (by omega)
    · cases order : compare (2 * (m % n)) n with
      | lt => exact iff_of_false Bool.false_ne_true (not_le.2 (Nat.compare_eq_lt.1 order))
      | eq => exact iff_of_true rfl (Nat.compare_eq_eq.1 order).ge
      | gt => exact iff_of_true rfl (Nat.compare_eq_gt.1 order).le
  · rw [rest, Ne, none, Ne, equal, accuracyOfFraction]
    split
    · rename_i zero
      exact iff_of_false Bool.false_ne_true fun both => both.1 zero
    · rename_i nonzero
      cases order : compare (2 * (m % n)) n with
      | lt => exact iff_of_true rfl ⟨nonzero, (Nat.compare_eq_lt.1 order).ne⟩
      | eq => exact iff_of_false Bool.false_ne_true fun both => both.2 (Nat.compare_eq_eq.1 order)
      | gt => exact iff_of_true rfl ⟨nonzero, (Nat.compare_eq_gt.1 order).ne'⟩

theorem isNearest_divCore (h : 0 < m) (h' : 0 < n) :
    IsNearest (UnpackedFloat.div Format.binary64 (.finite .positive m e h) (.finite .positive n f h'))
      (m * 2 ^ e / (n * 2 ^ f)) := by
  let goal := min (e - f) (Format.binary64.targetExponent (totalExponent m e - totalExponent n f))
  have target : goal =
      min (e - f) (max (totalExponent m e - totalExponent n f - 53) (-1074)) := rfl
  let shift := (e - f - goal).toNat
  have normal : 2 ^ 52 ≤ m <<< shift / n ∨ goal ≤ -1074 := by
    by_cases subnormal : goal ≤ -1074
    · exact .inr subnormal
    · rw [totalExponent_eq, totalExponent_eq] at target
      have digits : 53 + n.log2 ≤ m.log2 + shift := by omega
      refine .inl ((Nat.le_div_iff_mul_le h').2 ?_)
      calc 2 ^ 52 * n ≤ 2 ^ 52 * 2 ^ (n.log2 + 1) := Nat.mul_le_mul_left _ Nat.lt_log2_self.le
        _ = 2 ^ (53 + n.log2) := by rw [← Nat.pow_add]; congr 1; omega
        _ ≤ 2 ^ (m.log2 + shift) := Nat.pow_le_pow_right Nat.two_pos digits
        _ = 2 ^ m.log2 * 2 ^ shift := Nat.pow_add _ _ _
        _ ≤ m * 2 ^ shift := Nat.mul_le_mul_right _ (Nat.log2_self_le h.ne')
        _ = m <<< shift := (Nat.shiftLeft_eq _ _).symm
  have near := isNearest_roundWithAccuracy (holds_accuracyOfFraction (m <<< shift) h')
    (by positivity) normal
  have same : ((m <<< shift : ℕ) / n : ℚ) * 2 ^ goal = m * 2 ^ e / (n * 2 ^ f) := by
    have exponent : (2 : ℚ) ^ shift * 2 ^ goal = 2 ^ e / 2 ^ f := by
      rw [← zpow_sub₀ two_ne_zero, ← zpow_natCast, ← zpow_add₀ two_ne_zero]
      congr 1
      omega
    rw [Nat.shiftLeft_eq, Nat.cast_mul, Nat.cast_pow, Nat.cast_ofNat, mul_div_mul_comm, ← exponent]
    ring
  exact same ▸ near

/-- **A quotient is rounded once.** -/
theorem rounds_div (first : x.isFinite = true) (second : y.isFinite = true) (low : 0 ≤ toRat x)
    (low' : 0 < toRat y) : Rounds (toRat x / toRat y) (x / y) := by
  refine rounds_pack ?_ (div_nonneg low low'.le)
  rcases unpack_cases second low'.le with ⟨sign', form', none'⟩ | ⟨n, f, h', form', -, value'⟩
  · exact absurd none' low'.ne'
  · rcases unpack_cases first low with ⟨sign, form, none⟩ | ⟨m, e, h, form, -, value⟩ <;>
      rw [form, form']
    · rw [none, zero_div]
      exact isNearest_zero _
    · rw [value, value']
      exact isNearest_divCore h h'

/-! ## Integers and decimal literals -/

theorem isNearest_round (positive : 0 < m) (e : ℤ) :
    IsNearest (UnpackedFloat.round Format.binary64 .positive m e) (m * 2 ^ e) := by
  let k := (e - Format.binary64.targetExponent (totalExponent m e)).toNat
  have shift : k = (e - max (m.log2 + 1 + e - 53) (-1074)).toNat := rfl
  have nonzero : m * 2 ^ k ≠ 0 := (Nat.mul_pos positive (Nat.two_pow_pos k)).ne'
  have digits : (m * 2 ^ k).log2 = m.log2 + k := by
    refine (Nat.log2_eq_iff nonzero).2 ⟨?_, ?_⟩
    · rw [Nat.pow_add]
      exact Nat.mul_le_mul_right _ (Nat.log2_self_le positive.ne')
    · rw [Nat.add_right_comm, Nat.pow_add]
      exact Nat.mul_lt_mul_of_pos_right Nat.lt_log2_self (Nat.two_pow_pos k)
  have normal : 2 ^ 52 ≤ m <<< k ∨ e - k ≤ -1074 := by
    rw [Nat.shiftLeft_eq, ← Nat.le_log2 nonzero, digits]
    omega
  have near := isNearest_roundWithAccuracy (holds_natCast (m <<< k)) (Nat.cast_nonneg _) normal
  have same : ((m <<< k : ℕ) : ℚ) * 2 ^ (e - k) = m * 2 ^ e := by
    rw [Nat.shiftLeft_eq, Nat.cast_mul, Nat.cast_pow, Nat.cast_ofNat, mul_assoc, ← zpow_natCast,
      ← zpow_add₀ two_ne_zero, add_sub_cancel]
  exact same ▸ near

theorem isNearest_ofNat (n : ℕ) : IsNearest (UnpackedFloat.ofNat Format.binary64 n) n := by
  rcases Nat.eq_zero_or_pos n with rfl | positive
  · rw [Nat.cast_zero]
    exact isNearest_zero _
  · have above : compare (n : ℤ) 0 = .gt := Int.compare_eq_gt.2 (Int.natCast_pos.2 positive)
    have made : UnpackedFloat.ofNat Format.binary64 n =
        UnpackedFloat.round Format.binary64 .positive n 0 := by
      rw [UnpackedFloat.ofNat, UnpackedFloat.ofInt, UnpackedFloat.normalize, above]
      rfl
    have near := isNearest_round positive 0
    rwa [zpow_zero, mul_one, ← made] at near

/-- What is beyond the largest float is not brought back by rounding. -/
theorem le_nearest_of_le (beyond : 2 ^ 1024 ≤ v) : 2 ^ 1024 ≤ nearest v := by
  have top : (2 : ℚ) ^ 1024 = (2 ^ 52 : ℕ) * 2 ^ (972 : ℤ) := by
    rw [Nat.cast_pow, Nat.cast_ofNat, ← zpow_natCast, ← zpow_natCast, ← zpow_add₀ two_ne_zero]
    rfl
  have same := nearest_eq_self (m := 2 ^ 52) (e := 972) (by norm_num) (by norm_num)
  rw [← top] at same
  exact same ▸ nearest_mono (by positivity) beyond

/-- What is below half of the least positive float becomes zero. -/
theorem nearest_eq_zero (positive : 0 ≤ v) (tiny : v < 2 ^ (-1075 : ℤ)) : nearest v = 0 := by
  rcases positive.eq_or_lt with rfl | positive
  · exact nearest_zero
  have fine : grid v = -1074 :=
    le_antisymm (grid_le positive (tiny.trans_le (zpow_le_zpow_right₀ (by norm_num) (by norm_num)))
      le_rfl) (le_max_right _ _)
  have low : v / 2 ^ grid v < 1 / 2 := by
    rw [fine, div_lt_iff₀ (step_pos _)]
    refine tiny.trans_eq ?_
    rw [show (-1075 : ℤ) = -1 + -1074 from rfl, zpow_add₀ two_ne_zero]
    norm_num
  have near := (abs_le.1 (abs_halfEven_sub_le (v / 2 ^ grid v))).2
  have below : halfEven (v / 2 ^ grid v) < 1 := by
    have less : (halfEven (v / 2 ^ grid v) : ℚ) < 1 := by linarith
    exact_mod_cast less
  have least : 0 ≤ halfEven (v / 2 ^ grid v) := by
    refine le_halfEven ?_
    rw [Int.cast_zero]
    positivity
  rw [nearest, show halfEven (v / 2 ^ grid v) = 0 by omega, Int.cast_zero, zero_mul]

/-- A literal with a large exponent is beyond the floats. -/
theorem le_literal (nonzero : m ≠ 0) (large : 1024 ≤ e) : (2 : ℚ) ^ 1024 ≤ m * 10 ^ e := by
  have least : (1 : ℚ) ≤ m := by exact_mod_cast Nat.one_le_iff_ne_zero.2 nonzero
  calc (2 : ℚ) ^ 1024 = 2 ^ (1024 : ℤ) := (zpow_natCast _ _).symm
    _ ≤ 2 ^ e := zpow_le_zpow_right₀ (by norm_num) large
    _ ≤ 10 ^ e := zpow_le_zpow_left₀ (by omega) (by norm_num) (by norm_num)
    _ ≤ m * 10 ^ e := le_mul_of_one_le_left (zpow_nonneg (by norm_num) e) least

/-- A literal with a small one is nearer to zero than to any other float. -/
theorem literal_lt (negative : e ≤ 0) (small : m.log2 + 1 + e < -1075) :
    (m : ℚ) * 10 ^ e < 2 ^ (-1075 : ℤ) := by
  have digits : (m : ℚ) ≤ 2 ^ (m.log2 + 1 : ℤ) :=
    (le_add_of_nonneg_right zero_le_one).trans (lt_pow_log2 m)
  have below : (10 : ℚ) ^ e ≤ 2 ^ e := by
    obtain ⟨k, rfl⟩ : ∃ k : ℕ, e = -k := ⟨(-e).toNat, by omega⟩
    rw [zpow_neg, zpow_neg, zpow_natCast, zpow_natCast]
    exact inv_anti₀ (by positivity) (pow_le_pow_left₀ (by norm_num) (by norm_num) k)
  calc (m : ℚ) * 10 ^ e ≤ 2 ^ (m.log2 + 1 : ℤ) * 2 ^ e :=
        mul_le_mul digits below (zpow_nonneg (by norm_num) e) (step_pos _).le
    _ = 2 ^ (m.log2 + 1 + e : ℤ) := (zpow_add₀ two_ne_zero _ _).symm
    _ < 2 ^ (-1075 : ℤ) := zpow_lt_zpow_right₀ (by norm_num) small

/-- A decimal literal in its general form. -/
theorem rounds_model_ofScientific (m : ℕ) (e : ℤ) :
    Rounds (m * 10 ^ e) (.ofModel (.ofScientific m e)) := by
  unfold Float.Model.ofScientific UnpackedFloat.ofScientific
  by_cases none : m = 0
  · rw [dif_pos none, none, Nat.cast_zero, zero_mul]
    exact rounds_pack (isNearest_zero _) le_rfl
  rw [dif_neg none]
  have bits : (2 : ℤ) ^ Format.binary64.exponentBits = 2048 := rfl
  rw [bits]
  by_cases large : e > 2048
  · rw [if_pos large]
    have top := le_nearest_of_le (le_literal none (e := e) (by omega))
    exact ⟨fun below => absurd below (not_lt.2 top), fun _ =>
      eq_of_unpack_infinity (unpack_pack_infinity .positive) unpack_infinity⟩
  · rw [if_neg large]
    by_cases small : e < -(2048 + m.log2)
    · rw [if_pos small]
      have tiny := literal_lt (m := m) (e := e) (by omega) (by omega)
      have near : IsNearest (.zero .positive) (m * 10 ^ e) :=
        ⟨trivial, by rw [nearest_eq_zero (by positivity) tiny]; exact zero_div _⟩
      exact rounds_pack near (by positivity)
    · rw [if_neg small]
      by_cases whole : 0 ≤ e
      · rw [if_pos whole]
        refine rounds_pack ?_ (by positivity)
        have normal : 2 ^ 52 ≤ m <<< 53 * 10 ^ e.toNat ∨ (-53 + 0 : ℤ) ≤ -1074 := by
          refine .inl ?_
          rw [Nat.shiftLeft_eq]
          have one : 1 ≤ m * 10 ^ e.toNat := Nat.mul_pos (Nat.pos_of_ne_zero none) (by positivity)
          calc 2 ^ 52 ≤ 1 * 2 ^ 53 := by norm_num
            _ ≤ m * 10 ^ e.toNat * 2 ^ 53 := Nat.mul_le_mul_right _ one
            _ = m * 2 ^ 53 * 10 ^ e.toNat := Nat.mul_right_comm _ _ _
        have near := isNearest_roundWithAccuracy
          (holds_natCast (m <<< 53 * 10 ^ e.toNat)) (Nat.cast_nonneg _) normal
        have same : ((m <<< 53 * 10 ^ e.toNat : ℕ) : ℚ) * 2 ^ (-53 + 0 : ℤ) = m * 10 ^ e := by
          obtain ⟨k, rfl⟩ := Int.eq_ofNat_of_zero_le whole
          rw [Nat.shiftLeft_eq, Int.toNat_natCast, zpow_natCast]
          push_cast
          field_simp
          norm_num
        exact same ▸ near
      · rw [if_neg whole]
        refine rounds_pack ?_ (by positivity)
        have near := isNearest_divCore (m := m) (n := 10 ^ (-e).toNat) (e := 0) (f := 0)
          (Nat.pos_of_ne_zero none) (by positivity)
        have same : (m : ℚ) * 2 ^ (0 : ℤ) / ((10 ^ (-e).toNat : ℕ) * 2 ^ (0 : ℤ)) = m * 10 ^ e := by
          rw [zpow_zero, mul_one, mul_one, Nat.cast_pow, Nat.cast_ofNat, ← zpow_natCast,
            Int.toNat_of_nonneg (by omega), div_eq_mul_inv, ← zpow_neg, neg_neg]
        exact same ▸ near

/-- A whole number of up to 53 digits is a float. -/
theorem Rounds.natCast (rounds : Rounds m z) (small : m < 2 ^ 53) :
    z.isFinite = true ∧ toRat z = m := by
  have stays := nearest_eq_self small (e := 0) (by norm_num)
  rw [zpow_zero, mul_one] at stays
  have below : nearest m < 2 ^ 1024 := by
    rw [stays]
    exact_mod_cast small.trans (Nat.pow_lt_pow_right (by decide) (by decide))
  obtain ⟨finite, near⟩ := rounds.near below
  exact ⟨finite, near.trans stays⟩

theorem isFinite_toUInt64 (small : m < 2 ^ 53) :
    m.toUInt64.toFloat.isFinite = true ∧ toRat m.toUInt64.toFloat = m := by
  have same : m.toUInt64.toNat = m := UInt64.toNat_ofNat_of_lt' (small.trans (by decide))
  have made : m.toUInt64.toFloat = .ofModel (.pack (UnpackedFloat.ofNat Format.binary64 m)) := by
    rw [UInt64.toFloat, Float.Model.ofUInt64, UnpackedFloat.ofUInt64, same]
  have rounds := rounds_pack (isNearest_ofNat m) (Nat.cast_nonneg m)
  rw [← made] at rounds
  exact rounds.natCast small

theorem powersOfTen (k : Fin 23) :
    Float.exactlyRepresentablePowersOfTen[k].isFinite = true ∧
      toRat Float.exactlyRepresentablePowersOfTen[k] = 10 ^ k.val := by
  have all : ∀ k : Fin 23, Float.exactlyRepresentablePowersOfTen[k].isFinite = true ∧
      units Float.exactlyRepresentablePowersOfTen[k].toModel.unpack = 10 ^ k.val * 2 ^ 1074 := by
    decide +kernel
  obtain ⟨finite, same⟩ := all k
  refine ⟨finite, ?_⟩
  rw [toRat, rat, same, Int.cast_mul, Int.cast_pow, Int.cast_pow, Int.cast_ofNat, Int.cast_ofNat]
  exact mul_div_cancel_right₀ _ (by positivity)

/-- **A decimal literal is the nearest float.** -/
theorem rounds_ofScientific (m : ℕ) (below : Bool) (k : ℕ) :
    Rounds (if below then m / 10 ^ k else m * 10 ^ k) (Float.ofScientific m below k) := by
  by_cases fast : m < 2 ^ 53 ∧ k ≤ 22
  · obtain ⟨finite, same⟩ := isFinite_toUInt64 fast.1
    obtain ⟨finite', same'⟩ := powersOfTen ⟨k, Nat.lt_succ_of_le fast.2⟩
    have nonneg : 0 ≤ toRat m.toUInt64.toFloat := same ▸ Nat.cast_nonneg m
    have positive := same'.symm ▸ pow_pos (a := (10 : ℚ)) (by norm_num) k
    rw [Float.ofScientific, dif_pos fast]
    dsimp only
    cases below with
    | true =>
        have rounds := rounds_div finite finite' nonneg positive
        rwa [same, same'] at rounds
    | false =>
        have rounds := rounds_mul finite finite' nonneg positive.le
        rwa [same, same'] at rounds
  · rw [Float.ofScientific, dif_neg fast]
    dsimp only
    cases below with
    | true =>
        have rounds := rounds_model_ofScientific m (Int.negOfNat k)
        rwa [Int.negOfNat_eq, Int.ofNat_eq_natCast, zpow_neg, zpow_natCast, ← div_eq_mul_inv] at rounds
    | false =>
        have rounds := rounds_model_ofScientific m (Int.ofNat k)
        rwa [Int.ofNat_eq_natCast, zpow_natCast] at rounds

/-- **A natural number is rounded once.** -/
theorem rounds_ofNat (n : ℕ) : Rounds n (Float.ofNat n) := by
  have rounds := rounds_ofScientific n false 0
  rwa [if_neg Bool.false_ne_true, pow_zero, mul_one] at rounds

/-! ## Rounding to an integer -/

theorem abs_rat_finite {sign : Sign} (h : 0 < m) (least : -1074 ≤ e) :
    |rat (.finite sign m e h)| = m * 2 ^ e := by
  have positive := rat_finite h least
  have nonneg : (0 : ℚ) ≤ m * 2 ^ e := by positivity
  cases sign with
  | positive => rw [positive, abs_of_nonneg nonneg]
  | negative =>
      have opposite : rat (.finite .negative m e h) = -rat (.finite .positive m e h) := by
        change ((-(size m e : ℤ) : ℤ) : ℚ) / 2 ^ 1074 = -(((size m e : ℤ) : ℚ) / 2 ^ 1074)
        rw [Int.cast_neg, neg_div]
      rw [opposite, abs_neg, positive, abs_of_nonneg nonneg]

theorem Dyadic.numerator_div_denominator (d : Dyadic) :
    (d.numerator / d.denominator : ℚ) = d.mantissa * 2 ^ d.exponent := by
  have numerator : (d.numerator : ℚ) = d.mantissa * 2 ^ d.exponent.toNat := by
    rw [Dyadic.numerator, Nat.pow_eq, Nat.cast_mul, Nat.cast_pow, Nat.cast_ofNat]
  have denominator : (d.denominator : ℚ) = 2 ^ (-d.exponent).toNat := by
    rw [Dyadic.denominator, Nat.pow_eq, Nat.cast_pow, Nat.cast_ofNat]
  rw [numerator, denominator, mul_div_assoc, ← zpow_natCast, ← zpow_natCast,
    ← zpow_sub₀ two_ne_zero]
  congr 2
  omega

/-- What is read off the bits of a number is how it is stored. -/
theorem unpack_of_decode {d : Dyadic} (decoded : decode x = .finite d) :
    (∃ positive : 0 < d.mantissa, Canonical d.mantissa d.exponent ∧
      x.toModel.unpack = .finite (signOf d.negative) d.mantissa d.exponent positive) ∨
    (d.mantissa = 0 ∧ x.toModel.unpack = .zero (signOf d.negative)) := by
  have stored := stored_unpack (isFinite_iff.2 ⟨d, decoded⟩)
  rw [unpack_eq, decoded, unpacked] at stored ⊢
  by_cases positive : 0 < d.mantissa
  · rw [dif_pos positive] at stored ⊢
    exact .inl ⟨positive, stored, rfl⟩
  · rw [dif_neg positive]
    exact .inr ⟨Nat.eq_zero_of_not_pos positive, rfl⟩

theorem abs_toRat {d : Dyadic} (decoded : decode x = .finite d) :
    |toRat x| = d.numerator / d.denominator := by
  rw [Dyadic.numerator_div_denominator, toRat]
  rcases unpack_of_decode decoded with ⟨positive, canonical, form⟩ | ⟨none, form⟩ <;> rw [form]
  · exact abs_rat_finite positive canonical.least
  · rw [none, Nat.cast_zero, zero_mul, abs_eq_zero]
    exact zero_div _

theorem toRat_neg {d : Dyadic} (decoded : decode x = .finite d) (negative : d.negative = true)
    (nonzero : 0 < d.mantissa) : toRat x < 0 := by
  rcases unpack_of_decode decoded with ⟨positive, -, form⟩ | ⟨none, -⟩
  · rw [toRat, form, negative]
    exact rat_negative positive
  · exact absurd none nonzero.ne'

theorem mantissa_lt {d : Dyadic} (decoded : decode x = .finite d) : d.mantissa < 2 ^ 53 := by
  rcases unpack_of_decode decoded with ⟨-, canonical, -⟩ | ⟨none, -⟩
  · exact canonical.small
  · omega

/-- A fraction is its whole part and what is left over. -/
theorem natCast_div_eq_add (m n : ℕ) : (m / n : ℚ) = (m / n : ℕ) + (m % n : ℕ) / n := by
  have floor : ⌊(m / n : ℚ)⌋ = (m / n : ℕ) := Rat.floor_natCast_div_natCast m n
  rw [← Int.fract_div_natCast_eq_div_natCast_mod, ← Int.cast_natCast (m / n), ← floor,
    Int.floor_add_fract]

theorem roundMagnitude_halfAway (d : Dyadic) :
    (d.roundMagnitude .halfAway : ℤ) = ⌊(d.numerator / d.denominator : ℚ) + 1 / 2⌋ := by
  have above : 0 < d.denominator := Nat.two_pow_pos _
  have parts := natCast_div_eq_add d.numerator d.denominator
  have positive : (0 : ℚ) < d.denominator := Nat.cast_pos.2 above
  have less : ((d.numerator % d.denominator : ℕ) : ℚ) / d.denominator < 1 := by
    rw [div_lt_one positive]
    exact_mod_cast Nat.mod_lt _ above
  have least : (0 : ℚ) ≤ (d.numerator % d.denominator : ℕ) / d.denominator := by positivity
  have half : (1 / 2 : ℚ) ≤ (d.numerator % d.denominator : ℕ) / d.denominator ↔
      d.denominator ≤ 2 * (d.numerator % d.denominator) := by
    rw [div_le_div_iff₀ two_pos positive, one_mul, mul_comm]
    exact_mod_cast Iff.rfl
  symm
  rw [Int.floor_eq_iff, parts, Dyadic.roundMagnitude, Rounding.steps]
  simp only [decide_eq_true_eq]
  split
  · rename_i up
    have more := half.2 up
    rw [Int.cast_natCast, Nat.cast_add, Nat.cast_one]
    constructor <;> linarith
  · rename_i down
    have fewer := not_le.1 (mt half.1 down)
    rw [Int.cast_natCast]
    constructor <;> linarith

theorem roundMagnitude_of_zero {d : Dyadic} (zero : d.numerator = 0) :
    d.roundMagnitude .halfAway = 0 := by
  have above : 0 < d.denominator := Nat.two_pow_pos _
  unfold Dyadic.roundMagnitude
  dsimp only
  rw [zero, Nat.zero_mod, Nat.zero_div, Rounding.steps, if_neg]
  simpa using above.ne'

theorem numerator_of_fraction {d : Dyadic} (fraction : d.exponent < 0) :
    d.numerator = d.mantissa := by
  rw [Dyadic.numerator, Int.toNat_of_nonpos (by omega)]
  exact Nat.mul_one _

/-- Where digits stand behind the point, fewer than 53 stand before it. -/
theorem roundMagnitude_small {d : Dyadic} (mode : Rounding) (decoded : decode x = .finite d)
    (fraction : d.exponent < 0) : d.roundMagnitude mode < 2 ^ 53 := by
  have halved : d.mantissa / d.denominator ≤ d.mantissa / 2 := by
    refine Nat.div_le_div_left ?_ Nat.two_pos
    exact Nat.le_self_pow (Nat.ne_of_gt (by omega)) 2
  have few := mantissa_lt decoded
  have step : d.roundMagnitude mode ≤ d.numerator / d.denominator + 1 := by
    unfold Dyadic.roundMagnitude
    dsimp only
    split <;> omega
  rw [numerator_of_fraction fraction] at step
  omega

/-- A number without fraction bits is its own rounding. -/
theorem roundMagnitude_of_whole {d : Dyadic} (mode : Rounding) (whole : 0 ≤ d.exponent) :
    d.denominator = 1 ∧ d.roundMagnitude mode = d.numerator := by
  have one : d.denominator = 1 := by
    rw [Dyadic.denominator, Int.toNat_of_nonpos (by omega)]
  refine ⟨one, ?_⟩
  unfold Dyadic.roundMagnitude
  rw [one, Nat.mod_one, Nat.div_one]
  cases mode <;> simp [Rounding.steps]

/-- **Rounding to an integer is exact.** -/
theorem toRat_round (finite : x.isFinite = true) (nonneg : 0 ≤ toRat x) :
    (round x).isFinite = true ∧ toRat (round x) = ⌊toRat x + 1 / 2⌋ := by
  obtain ⟨d, decoded⟩ := isFinite_iff.1 finite
  have amount := abs_toRat decoded
  rw [abs_of_nonneg nonneg] at amount
  rw [round, roundWith, decoded]
  dsimp only
  by_cases whole : 0 ≤ d.exponent
  · have one := (roundMagnitude_of_whole .halfAway whole).1
    rw [if_pos whole]
    rw [one, Nat.cast_one, div_one] at amount
    refine ⟨finite, ?_⟩
    have floor : ⌊(d.numerator : ℚ) + 1 / 2⌋ = (d.numerator : ℕ) := by
      rw [Int.floor_natCast_add, Int.floor_eq_zero_iff.2 (by norm_num), add_zero]
    rw [amount, floor, Int.cast_natCast]
  · rw [if_neg whole, amount, ← roundMagnitude_halfAway, Int.cast_natCast]
    have numerator : d.numerator = d.mantissa := numerator_of_fraction (by omega)
    have small := roundMagnitude_small .halfAway decoded (by omega)
    cases negative : d.negative with
    | false => exact (rounds_ofNat _).natCast small
    | true =>
        have none : d.mantissa = 0 := Nat.eq_zero_of_not_pos fun positive =>
          absurd nonneg (not_le.2 (toRat_neg decoded negative positive))
        rw [roundMagnitude_of_zero (numerator.trans none), withSign, if_pos rfl]
        refine ⟨by decide +kernel, ?_⟩
        have units : units (-Float.ofNat 0).toModel.unpack = 0 := by decide +kernel
        rw [toRat, rat, units]
        norm_num

/-! ## Signs -/

/-- Packing makes no not-a-number out of a number. -/
theorem isNaN_pack_finite (sign : Sign) (h : 0 < m) :
    (Float.ofModel (.pack (.finite sign m e h))).isNaN = false := by
  by_cases large : 971 < e
  · have packed := pack_finite sign (e := e) h
    rw [if_pos large] at packed
    have form : (Float.ofModel (.pack (.finite sign m e h))).toModel.unpack = .infinity sign :=
      (congrArg (unpack Format.binary64) packed).trans (unpack_pack_infinity sign)
    exact congrArg UnpackedFloat.isNaN form
  · exact isNaN_eq_false_of_isFinite (isFinite_unpack_pack (u := .finite sign m e h)
      (Int.not_lt.1 large))

theorem isNaN_pack_zero (sign : Sign) : (Float.ofModel (.pack (.zero sign))).isNaN = false := by
  cases sign <;> decide +kernel

theorem cases_of_isFinite (finite : u.isFinite = true) :
    (∃ sign, u = .zero sign) ∨ ∃ sign m e h, u = .finite sign m e h := by
  cases u with
  | notANumber => exact absurd finite Bool.false_ne_true
  | infinity sign => exact absurd finite Bool.false_ne_true
  | zero sign => exact .inl ⟨sign, rfl⟩
  | finite sign m e h => exact .inr ⟨sign, m, e, h, rfl⟩

/-- A product of finite numbers is a number. -/
theorem isNaN_mul (first : x.isFinite = true) (second : y.isFinite = true) :
    (x * y).isNaN = false := by
  have product : x * y = .ofModel (.pack
      (UnpackedFloat.mul Format.binary64 x.toModel.unpack y.toModel.unpack)) := rfl
  rw [product]
  rcases cases_of_isFinite first with ⟨sign, form⟩ | ⟨sign, m, e, h, form⟩ <;>
    rcases cases_of_isFinite second with ⟨sign', form'⟩ | ⟨sign', m', e', h', form'⟩ <;>
    rw [form, form']
  · exact isNaN_pack_zero (sign * sign')
  · exact isNaN_pack_zero (sign * sign')
  · exact isNaN_pack_zero (sign * sign')
  · have made : UnpackedFloat.mul Format.binary64 (.finite sign m e h) (.finite sign' m' e' h') =
        roundWithAccuracy Format.binary64 (sign * sign') (m * m') (e + e') .exact := rfl
    obtain ⟨r, -, -, same⟩ := roundWithAccuracy_eq (sign * sign') (m * m') (e + e') .exact
    rw [made, same]
    by_cases none : r / 2 ^ shiftOf r (e + e' + shiftOf (m * m') (e + e')) = 0
    · rw [dif_pos none]
      exact isNaN_pack_zero _
    · rw [dif_neg none]
      exact isNaN_pack_finite _ _

theorem exponent_le {d : Dyadic} (decoded : decode x = .finite d) : d.exponent ≤ 971 := by
  have width := (unpackExponent (bitsOf x)).isLt
  rw [decode_eq, Decoded.ofFields] at decoded
  split at decoded
  · split at decoded <;> cases decoded
  · split at decoded <;> cases decoded <;> dsimp only
    · omega
    · change _ < 2 ^ 11 at width
      omega

/-- The size of a number is exact. -/
theorem toRat_abs (finite : x.isFinite = true) :
    x.abs.isFinite = true ∧ toRat x.abs = |toRat x| := by
  obtain ⟨d, decoded⟩ := isFinite_iff.1 finite
  have made : x.abs = .ofModel (.pack x.toModel.unpack.abs) := rfl
  rw [toRat, toRat, made]
  rcases unpack_of_decode decoded with ⟨positive, canonical, form⟩ | ⟨-, form⟩ <;> rw [form]
  · have packed : (Float.ofModel (.pack (.finite .positive d.mantissa d.exponent positive))).toModel.unpack
        = _ := unpack_pack_finite .positive positive canonical
    rw [if_neg (Int.not_lt.2 (exponent_le decoded))] at packed
    refine ⟨congrArg UnpackedFloat.isFinite packed, ?_⟩
    rw [abs_rat_finite positive canonical.least, ← rat_finite positive canonical.least]
    exact congrArg rat packed
  · have packed : (Float.ofModel (.pack (.zero .positive))).toModel.unpack = .zero .positive :=
      unpack_pack_zero .positive
    have zero (sign : Sign) : rat (.zero sign) = 0 := zero_div _
    refine ⟨congrArg UnpackedFloat.isFinite packed, (congrArg rat packed).trans ?_⟩
    rw [zero, zero, abs_zero]

end Infographic.Number
