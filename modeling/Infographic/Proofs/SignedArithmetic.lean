/-
# Infographic.Proofs.SignedArithmetic -- sums and quotients of numbers with a sign

Rounding forgets the sign and gives it back (`nearestSigned`): it keeps the order of numbers, and
whole numbers of up to 53 binary digits stay what they are.  A sum and a quotient of finite numbers
are rounded once in this way, whatever their signs (`toRat_add`, `toRat_div`).
-/
import Infographic.Proofs.RoundedArithmetic

namespace Infographic.Number

set_option autoImplicit false

open Float.Model (Format UnpackedFloat totalExponent)
open Float.Model.UnpackedFloat

variable {x y : Float} {u : UnpackedFloat} {v w : ℚ} {m n : ℕ} {e f : ℤ}

/-! ## Rounding with a sign -/

/-- The nearest float, found for the size of a number. -/
def nearestSigned (v : ℚ) : ℚ :=
  if v < 0 then -nearest (-v) else nearest v

theorem nearestSigned_of_nonneg (nonneg : 0 ≤ v) : nearestSigned v = nearest v :=
  if_neg (not_lt.2 nonneg)

theorem nearestSigned_neg (v : ℚ) : nearestSigned (-v) = -nearestSigned v := by
  rw [nearestSigned, nearestSigned]
  rcases lt_trichotomy v 0 with below | rfl | above
  · rw [if_neg (by linarith), if_pos below, neg_neg]
  · simp [nearest_zero]
  · rw [if_pos (by linarith), if_neg (by linarith), neg_neg]

theorem abs_nearestSigned (v : ℚ) : |nearestSigned v| = nearest |v| := by
  rcases le_total 0 v with above | below
  · rw [nearestSigned_of_nonneg above, abs_of_nonneg above, abs_of_nonneg (nearest_nonneg above)]
  · have opposite : 0 ≤ -v := neg_nonneg.2 below
    rw [← neg_neg v, nearestSigned_neg, abs_neg, abs_neg, nearestSigned_of_nonneg opposite,
      abs_of_nonneg opposite, abs_of_nonneg (nearest_nonneg opposite)]

/-- **Rounding keeps the order, also across zero.** -/
theorem nearestSigned_mono (order : v ≤ w) : nearestSigned v ≤ nearestSigned w := by
  rcases le_or_gt 0 v with above | below
  · rw [nearestSigned_of_nonneg above, nearestSigned_of_nonneg (above.trans order)]
    exact nearest_mono above order
  · rw [nearestSigned, if_pos below]
    by_cases below' : w < 0
    · rw [nearestSigned, if_pos below', neg_le_neg_iff]
      exact nearest_mono (by linarith) (by linarith)
    · rw [nearestSigned_of_nonneg (not_lt.1 below')]
      have least := nearest_nonneg (v := -v) (by linarith)
      have least' := nearest_nonneg (not_lt.1 below')
      linarith

/-- What is on the grid stays, whatever its sign. -/
theorem nearestSigned_eq_self (small : m < 2 ^ 53) (least : -1074 ≤ e) (size : |v| = m * 2 ^ e) :
    nearestSigned v = v := by
  have stays : nearest |v| = |v| := size ▸ nearest_eq_self small least
  rcases le_total 0 v with above | below
  · rw [abs_of_nonneg above] at stays
    rw [nearestSigned_of_nonneg above, stays]
  · rw [abs_of_nonpos below] at stays
    rw [← neg_neg v, nearestSigned_neg, nearestSigned_of_nonneg (neg_nonneg.2 below), stays]

/-- A whole number of up to 53 binary digits is a float. -/
theorem nearestSigned_intCast {k : ℤ} (small : |k| ≤ 2 ^ 53) : nearestSigned (k : ℚ) = k := by
  have size : |(k : ℚ)| = k.natAbs := by rw [Nat.cast_natAbs, Int.cast_abs]
  rcases lt_or_eq_of_le small with less | top
  · have few : k.natAbs < 2 ^ 53 := by
      rw [Int.abs_eq_natAbs] at less
      exact_mod_cast less
    exact nearestSigned_eq_self few (e := 0) (by norm_num) (by rw [size, zpow_zero, mul_one])
  · -- the last of them needs one digit less
    refine nearestSigned_eq_self (m := 2 ^ 52) (e := 1) (by norm_num) (by norm_num) ?_
    rw [← Int.cast_abs, top]
    norm_num

/-- Numbers of an ordinary size are not rounded to infinity. -/
theorem nearest_lt_of_le (small : |v| ≤ 2 ^ 53) : nearest |v| < 2 ^ 1024 := by
  have top := nearestSigned_intCast (k := 2 ^ 53) (by norm_num)
  rw [nearestSigned_of_nonneg (by positivity)] at top
  have most := nearest_mono (abs_nonneg v) (w := ((2 ^ 53 : ℤ) : ℚ)) (by exact_mod_cast small)
  rw [top] at most
  refine most.trans_lt ?_
  rw [Int.cast_pow, Int.cast_ofNat]
  exact pow_lt_pow_right₀ (by norm_num) (by norm_num)

/-! ## Signs of stored numbers -/

theorem rat_neg (u : UnpackedFloat) : rat u.neg = -rat u := by
  rw [rat, rat, ← neg_div]
  congr 1
  cases u with
  | notANumber => exact neg_zero.symm
  | infinity sign => exact neg_zero.symm
  | zero sign => exact neg_zero.symm
  | finite sign m e h =>
      cases sign with
      | negative => exact congrArg Int.cast (Int.neg_neg _).symm
      | positive => exact congrArg Int.cast rfl

theorem stored_neg (stored : Stored u) : Stored u.neg := by
  cases u with
  | notANumber => exact stored.elim
  | infinity sign => exact stored.elim
  | zero sign => exact trivial
  | finite sign m e h => exact stored

/-- A number as it is stored is the nearest one, with its sign. -/
structure IsSigned (u : UnpackedFloat) (v : ℚ) : Prop where
  stored : Stored u
  rat : rat u = nearestSigned v

theorem IsNearest.isSigned (near : IsNearest u v) (nonneg : 0 ≤ v) : IsSigned u v :=
  ⟨near.stored, near.rat.trans (nearestSigned_of_nonneg nonneg).symm⟩

theorem IsSigned.neg (near : IsSigned u v) : IsSigned u.neg (-v) :=
  ⟨stored_neg near.stored, by rw [rat_neg, near.rat, nearestSigned_neg]⟩

/-- What a finite number stands for is stored as it is. -/
theorem isSigned_unpack (finite : x.isFinite = true) : IsSigned x.toModel.unpack (toRat x) := by
  obtain ⟨d, decoded⟩ := isFinite_iff.1 finite
  refine ⟨stored_unpack finite, Eq.symm ?_⟩
  rcases unpack_of_decode decoded with ⟨positive, canonical, form⟩ | ⟨none, form⟩
  · refine nearestSigned_eq_self canonical.small canonical.least ?_
    rw [toRat, form, abs_rat_finite positive canonical.least]
  · have zero : toRat x = 0 := by rw [toRat, form]; exact zero_div _
    rw [zero, nearestSigned_of_nonneg le_rfl, nearest_zero]
    exact zero.symm

/-- **In its bits a number is the nearest float with its sign.** -/
theorem IsSigned.pack (near : IsSigned u v) (below : nearest |v| < 2 ^ 1024) :
    (Float.ofModel (.pack u)).isFinite = true ∧ toRat (.ofModel (.pack u)) = nearestSigned v := by
  obtain ⟨stored, same⟩ := near
  cases u with
  | notANumber => exact stored.elim
  | infinity sign => exact stored.elim
  | zero sign =>
      have form : (Float.ofModel (.pack (.zero sign))).toModel.unpack = .zero sign :=
        unpack_pack_zero sign
      exact ⟨congrArg UnpackedFloat.isFinite form, (congrArg Number.rat form).trans same⟩
  | finite sign m e h =>
      have canonical : Canonical m e := stored
      have form : (Float.ofModel (.pack (.finite sign m e h))).toModel.unpack = _ :=
        unpack_pack_finite sign h canonical
      have size : |Number.rat (.finite sign m e h)| = m * 2 ^ e :=
        abs_rat_finite h canonical.least
      have inside : ¬971 < e := by
        rw [large_iff canonical, ← size, same, abs_nearestSigned]
        exact not_le.2 below
      rw [if_neg inside] at form
      exact ⟨congrArg UnpackedFloat.isFinite form, (congrArg Number.rat form).trans same⟩

/-- A finite number is not rounded to infinity. -/
theorem nearest_abs_toRat_lt (finite : x.isFinite = true) : nearest |toRat x| < 2 ^ 1024 := by
  obtain ⟨d, decoded⟩ := isFinite_iff.1 finite
  rw [← abs_nearestSigned, ← (isSigned_unpack finite).rat]
  show |toRat x| < 2 ^ 1024
  rw [abs_toRat decoded, Dyadic.numerator_div_denominator]
  rcases unpack_of_decode decoded with ⟨-, canonical, -⟩ | ⟨none, -⟩
  · exact not_le.1 fun beyond =>
      absurd (exponent_le decoded) (not_le.2 ((large_iff canonical).2 beyond))
  · rw [none, Nat.cast_zero, zero_mul]
    positivity

/-- The opposite of a finite number is exact. -/
theorem toRat_opposite (finite : x.isFinite = true) :
    (-x).isFinite = true ∧ toRat (-x) = -toRat x := by
  have near := isSigned_unpack finite
  have made : -x = .ofModel (.pack x.toModel.unpack.neg) := rfl
  obtain ⟨finite', same⟩ := near.neg.pack (by rw [abs_neg]; exact nearest_abs_toRat_lt finite)
  rw [made]
  exact ⟨finite', same.trans ((nearestSigned_neg _).trans (congrArg (-·) near.rat.symm))⟩

/-! ## Sums -/

theorem rat_finite_signed (sign : Sign) (h : 0 < m) (least : -1074 ≤ e) :
    rat (.finite sign m e h) = sign.apply m * 2 ^ e := by
  cases sign with
  | positive => exact rat_finite h least
  | negative =>
      have opposite : (UnpackedFloat.finite .negative m e h) =
          (UnpackedFloat.finite .positive m e h).neg := rfl
      rw [opposite, rat_neg, rat_finite h least]
      simp [Sign.apply]

/-- The sign is no part of the rounding. -/
theorem roundWithAccuracy_negative (m : ℕ) (e : ℤ) (accuracy : Accuracy) :
    roundWithAccuracy Format.binary64 .negative m e accuracy =
      (roundWithAccuracy Format.binary64 .positive m e accuracy).neg := by
  unfold roundWithAccuracy
  dsimp only
  rw [apply_dite UnpackedFloat.neg]
  rfl

/-- A whole number of steps is rounded once. -/
theorem isSigned_normalize (k e : ℤ) (sign : Sign) :
    IsSigned (UnpackedFloat.normalize Format.binary64 k e sign) (k * 2 ^ e) := by
  rw [UnpackedFloat.normalize]
  split
  · rename_i below
    have negative : k < 0 := Int.compare_eq_lt.1 below
    have near := (isNearest_round (m := (-k).toNat) (by omega) e).isSigned (by positivity)
    have size : (((-k).toNat : ℕ) : ℚ) = -k := by
      exact_mod_cast Int.toNat_of_nonneg (a := -k) (by omega)
    have made : UnpackedFloat.round Format.binary64 .negative (-k).toNat e =
        (UnpackedFloat.round Format.binary64 .positive (-k).toNat e).neg :=
      roundWithAccuracy_negative _ _ _
    rw [size] at near
    rw [made]
    simpa using near.neg
  · rename_i none
    have zero : k = 0 := Std.compare_eq_iff_eq.1 none
    rw [zero, Int.cast_zero, zero_mul]
    exact (isNearest_zero sign).isSigned le_rfl
  · rename_i above
    have positive : 0 < k := Int.compare_eq_gt.1 above
    have near := (isNearest_round (m := k.toNat) (by omega) e).isSigned (by positivity)
    have size : ((k.toNat : ℕ) : ℚ) = k := by
      exact_mod_cast Int.toNat_of_nonneg (a := k) (by omega)
    rwa [size] at near

/-- A number in smaller steps. -/
theorem apply_shiftLeft (sign : Sign) {e f : ℤ} (finer : f ≤ e) (m : ℕ) :
    ((sign.apply (m <<< (e - f).toNat : ℕ) : ℤ) : ℚ) * 2 ^ f = (sign.apply m : ℤ) * 2 ^ e := by
  have exponent : (2 : ℚ) ^ e = 2 ^ (e - f).toNat * 2 ^ f := by
    rw [← zpow_natCast, ← zpow_add₀ two_ne_zero]
    congr 1
    omega
  rw [Nat.shiftLeft_eq, exponent]
  cases sign with
  | positive =>
      simp only [Sign.apply]
      push_cast
      ring
  | negative =>
      simp only [Sign.apply]
      push_cast
      ring

theorem isSigned_add {u' : UnpackedFloat} (first : IsSigned u v) (second : IsSigned u' w)
    (exact : Number.rat u = v) (exact' : Number.rat u' = w) :
    IsSigned (UnpackedFloat.add Format.binary64 u u') (v + w) := by
  have zero (sign : Sign) : Number.rat (.zero sign) = 0 := zero_div _
  obtain ⟨stored, -⟩ := id first
  obtain ⟨stored', -⟩ := id second
  cases u with
  | notANumber => exact stored.elim
  | infinity sign => exact stored.elim
  | zero sign =>
      rw [← exact, zero, zero_add]
      cases u' with
      | notANumber => exact stored'.elim
      | infinity sign' => exact stored'.elim
      | zero sign' =>
          rw [← exact', zero]
          cases sign <;> cases sign' <;> exact (isNearest_zero _).isSigned le_rfl
      | finite sign' n f h' => exact second
  | finite sign m e h =>
      cases u' with
      | notANumber => exact stored'.elim
      | infinity sign' => exact stored'.elim
      | zero sign' =>
          rw [← exact', zero, add_zero]
          exact first
      | finite sign' n f h' =>
          have sum : v + w = ((sign.apply (m <<< (e - min e f).toNat : ℕ) +
              sign'.apply (n <<< (f - min e f).toNat : ℕ) : ℤ) : ℚ) * 2 ^ min e f := by
            rw [Int.cast_add, add_mul, apply_shiftLeft sign (Int.min_le_left e f),
              apply_shiftLeft sign' (Int.min_le_right e f), ← exact, ← exact',
              rat_finite_signed sign h stored.least, rat_finite_signed sign' h' stored'.least]
          rw [sum]
          exact isSigned_normalize _ _ _

/-- **A sum is rounded once.** -/
theorem toRat_add (first : x.isFinite = true) (second : y.isFinite = true)
    (below : nearest |toRat x + toRat y| < 2 ^ 1024) :
    (x + y).isFinite = true ∧ toRat (x + y) = nearestSigned (toRat x + toRat y) :=
  (isSigned_add (isSigned_unpack first) (isSigned_unpack second) rfl rfl).pack below

/-! ## Quotients -/

theorem isSigned_divCore (sign : Sign) (h : 0 < m) (h' : 0 < n) :
    IsSigned (UnpackedFloat.div Format.binary64 (.finite sign m e h) (.finite .positive n f h'))
      (sign.apply m * 2 ^ e / (n * 2 ^ f)) := by
  have near := (isNearest_divCore (e := e) (f := f) h h').isSigned (by positivity)
  cases sign with
  | positive => exact near
  | negative =>
      have made : UnpackedFloat.div Format.binary64 (.finite .negative m e h)
          (.finite .positive n f h') = (UnpackedFloat.div Format.binary64
            (.finite .positive m e h) (.finite .positive n f h')).neg :=
        roundWithAccuracy_negative _ _ _
      have opposite : ((Sign.negative.apply m : ℤ) : ℚ) * 2 ^ e / (n * 2 ^ f) =
          -(m * 2 ^ e / (n * 2 ^ f)) := by
        simp only [Sign.apply]
        push_cast
        ring
      rw [made, opposite]
      exact near.neg

/-- **A quotient of a number by a positive one is rounded once.** -/
theorem toRat_div (first : x.isFinite = true) (second : y.isFinite = true)
    (positive : 0 < toRat y) (below : nearest |toRat x / toRat y| < 2 ^ 1024) :
    (x / y).isFinite = true ∧ toRat (x / y) = nearestSigned (toRat x / toRat y) := by
  have near : IsSigned (UnpackedFloat.div Format.binary64 x.toModel.unpack y.toModel.unpack)
      (toRat x / toRat y) := by
    obtain ⟨d, decoded⟩ := isFinite_iff.1 first
    rcases unpack_cases second positive.le with ⟨sign', -, none⟩ | ⟨n, f, h', form', -, value'⟩
    · exact absurd none positive.ne'
    · rcases unpack_of_decode decoded with ⟨above, canonical, form⟩ | ⟨none, form⟩
      · have value : toRat x = (signOf d.negative).apply d.mantissa * 2 ^ d.exponent := by
          rw [toRat, form, rat_finite_signed _ above canonical.least]
        rw [value, value', form, form']
        exact isSigned_divCore _ above h'
      · have value : toRat x = 0 := by
          rw [toRat, form]
          exact zero_div _
        rw [value, zero_div, form, form']
        exact (isNearest_zero _).isSigned le_rfl
  exact near.pack below

end Infographic.Number
