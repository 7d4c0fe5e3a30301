/-
# Infographic.Proofs.FloatRounding -- what rounding and packing keep of a number

Rounding shifts a mantissa to its target exponent, changes it by at most one, and shifts it again
(`roundWithAccuracy_eq`).  So rounding keeps the place of the first binary digit, or carries into
the next one (`roundWithAccuracy_spec`), and it makes no large exponent out of small numbers
(`bounded_roundWithAccuracy`).  A rounded number is kept in its bits unless it is too large for them
(`unpack_pack_finite`).
-/
import Infographic.Proofs.FloatFields
import Mathlib.Algebra.Group.Nat.Defs

namespace Infographic.Number

set_option autoImplicit false

open Float.Model (Format UnpackedFloat totalExponent)
open Float.Model.UnpackedFloat

/-! ## Rounding -/

theorem mantissa_shiftRight (em : ExtendedMantissa) (k : Nat) :
    (em >>> k).mantissa = em.mantissa / 2 ^ k := by
  induction k with
  | zero => exact (Nat.div_one _).symm
  | succ k ih =>
      change (em >>> k).mantissa / 2 = _
      rw [ih, Nat.div_div_eq_div_mul, Nat.pow_succ]

theorem mantissa_ofMantissaAndAccuracy (m : Nat) (accuracy : Accuracy) :
    (ExtendedMantissa.ofMantissaAndAccuracy m accuracy).mantissa = m := by
  cases accuracy with
  | exact => rfl
  | inexact order => cases order <;> rfl

/-- Rounding changes a mantissa by at most one. -/
theorem roundedMantissa_mem (em : ExtendedMantissa) :
    em.mantissa ≤ em.roundedMantissa ∧ em.roundedMantissa ≤ em.mantissa + 1 := by
  rcases em with ⟨m, round, sticky⟩
  cases round <;> cases sticky <;>
    simp only [ExtendedMantissa.roundedMantissa, ExtendedMantissa.accuracy,
      Accuracy.roundToNearestEven] <;> omega

theorem targetExponent_eq (top : Int) :
    Format.binary64.targetExponent top = max (top - 53) (-1074) := rfl

/-- The place behind the first binary digit of `m * 2 ^ e`. -/
theorem totalExponent_eq (m : Nat) (e : Int) : totalExponent m e = m.log2 + 1 + e := rfl

theorem log2_div_pow {m k : Nat} (small : k ≤ m.log2) (positive : m ≠ 0) :
    (m / 2 ^ k).log2 = m.log2 - k ∧ m / 2 ^ k ≠ 0 := by
  have low : 2 ^ (m.log2 - k) ≤ m / 2 ^ k := by
    rw [Nat.le_div_iff_mul_le (Nat.two_pow_pos k), ← Nat.pow_add, Nat.sub_add_cancel small]
    exact Nat.log2_self_le positive
  have high : m / 2 ^ k < 2 ^ (m.log2 - k + 1) := by
    rw [Nat.div_lt_iff_lt_mul (Nat.two_pow_pos k), ← Nat.pow_add]
    have bits : m.log2 - k + 1 + k = m.log2 + 1 := by omega
    rw [bits]
    exact Nat.lt_log2_self
  have nonzero : m / 2 ^ k ≠ 0 := Nat.ne_of_gt (Nat.lt_of_lt_of_le (Nat.two_pow_pos _) low)
  exact ⟨(Nat.log2_eq_iff nonzero).2 ⟨low, high⟩, nonzero⟩

theorem div_pow_lt {m k : Nat} (enough : m.log2 ≤ 52 + k) : m / 2 ^ k < 2 ^ 53 := by
  rw [Nat.div_lt_iff_lt_mul (Nat.two_pow_pos k), ← Nat.pow_add]
  exact Nat.lt_of_lt_of_le Nat.lt_log2_self (Nat.pow_le_pow_right (by decide) (by omega))

theorem log2_le_of_le {m : Nat} (bound : m ≤ 2 ^ 53) : m.log2 ≤ 53 := by
  rcases Nat.eq_zero_or_pos m with rfl | positive
  · decide
  · refine Nat.le_of_lt_succ ((Nat.log2_lt (Nat.ne_of_gt positive)).2 ?_)
    exact Nat.lt_of_le_of_lt bound (by decide)

/-- How far a mantissa is shifted to its target exponent. -/
def shiftOf (m : Nat) (e : Int) : Nat :=
  (Format.binary64.targetExponent (totalExponent m e) - e).toNat

theorem shiftToTargetExponent_eq (m : Nat) (e : Int) (accuracy : Accuracy) :
    ∃ em : ExtendedMantissa, em.mantissa = m / 2 ^ shiftOf m e ∧
      shiftToTargetExponent Format.binary64 m e accuracy = (em, e + shiftOf m e) :=
  ⟨_, by rw [mantissa_shiftRight, mantissa_ofMantissaAndAccuracy]; rfl, rfl⟩

/-- Rounding is a shift, a change by at most one, and another shift. -/
theorem roundWithAccuracy_eq (sign : Sign) (m : Nat) (e : Int) (accuracy : Accuracy) :
    ∃ r, m / 2 ^ shiftOf m e ≤ r ∧ r ≤ m / 2 ^ shiftOf m e + 1 ∧
      roundWithAccuracy Format.binary64 sign m e accuracy =
        if h : r / 2 ^ shiftOf r (e + shiftOf m e) = 0 then .zero sign
        else .finite sign (r / 2 ^ shiftOf r (e + shiftOf m e))
          (e + shiftOf m e + shiftOf r (e + shiftOf m e)) (Nat.pos_of_ne_zero h) := by
  obtain ⟨em, shifted, first⟩ := shiftToTargetExponent_eq m e accuracy
  obtain ⟨low, high⟩ := roundedMantissa_mem em
  obtain ⟨last, exact_shift, second⟩ :=
    shiftToTargetExponent_eq em.roundedMantissa (e + shiftOf m e) .exact
  refine ⟨em.roundedMantissa, shifted ▸ low, shifted ▸ high, ?_⟩
  unfold roundWithAccuracy
  rw [first]
  dsimp only
  rw [second]
  dsimp only
  rw [exact_shift]

/-- A zero, or a finite number whose exponent is not above a limit. -/
def Bounded (limit : Int) : UnpackedFloat → Prop
  | .zero _ => True
  | .finite _ _ e _ => e ≤ limit
  | _ => False

/-- Rounding makes no large exponent out of small numbers. -/
theorem bounded_roundWithAccuracy (sign : Sign) {m : Nat} {e limit : Int} (accuracy : Accuracy)
    (least : -1074 ≤ limit) (exponent : e ≤ limit) (size : totalExponent m e ≤ limit + 53) :
    Bounded (limit + 1) (roundWithAccuracy Format.binary64 sign m e accuracy) := by
  obtain ⟨r, low, high, rounded⟩ := roundWithAccuracy_eq sign m e accuracy
  have first : e + shiftOf m e ≤ limit ∧ m.log2 ≤ 52 + shiftOf m e := by
    rw [totalExponent_eq] at size
    rw [shiftOf, targetExponent_eq, totalExponent_eq]
    omega
  have carry : r.log2 ≤ 53 := log2_le_of_le (by have := div_pow_lt first.2; omega)
  have second : shiftOf r (e + shiftOf m e) + (e + shiftOf m e) ≤ limit + 1 := by
    generalize e + (shiftOf m e : Int) = e' at first
    rw [shiftOf, targetExponent_eq, totalExponent_eq]
    omega
  rw [rounded]
  by_cases nothing : r / 2 ^ shiftOf r (e + shiftOf m e) = 0
  · rw [dif_pos nothing]
    trivial
  · rw [dif_neg nothing]
    change e + (shiftOf m e : Int) + shiftOf r (e + shiftOf m e) ≤ limit + 1
    omega

/-- The shift to the target exponent keeps the first digit. -/
theorem shiftOf_spec {m : Nat} {e : Int} (positive : m ≠ 0) (least : -1074 ≤ e) :
    m / 2 ^ shiftOf m e ≠ 0 ∧ m / 2 ^ shiftOf m e < 2 ^ 53 ∧
      totalExponent (m / 2 ^ shiftOf m e) (e + shiftOf m e) = totalExponent m e ∧
      (2 ^ 52 ≤ m → 2 ^ 52 ≤ m / 2 ^ shiftOf m e) ∧ (m < 2 ^ 53 → shiftOf m e = 0) := by
  have shift : shiftOf m e = m.log2 - 52 := by
    rw [shiftOf, targetExponent_eq, totalExponent_eq]
    omega
  rw [shift]
  obtain ⟨log, nonzero⟩ := log2_div_pow (m := m) (k := m.log2 - 52) (Nat.sub_le _ _) positive
  refine ⟨nonzero, div_pow_lt (by omega), ?_, fun normal => ?_, fun small => ?_⟩
  · rw [totalExponent_eq, totalExponent_eq, log]
    omega
  · have bits : 52 ≤ m.log2 := (Nat.le_log2 positive).2 normal
    refine (Nat.le_log2 nonzero).1 ?_
    rw [log]
    omega
  · have bits : m.log2 < 53 := (Nat.log2_lt positive).2 small
    omega

/-- A mantissa and an exponent as they are stored. -/
structure Canonical (m : Nat) (e : Int) : Prop where
  positive : m ≠ 0
  small : m < 2 ^ 53
  least : -1074 ≤ e
  normal : 2 ^ 52 ≤ m ∨ e = -1074

theorem totalExponent_succ {m r : Nat} {e : Int} (positive : m ≠ 0) (low : m ≤ r)
    (high : r ≤ m + 1) :
    totalExponent m e ≤ totalExponent r e ∧ totalExponent r e ≤ totalExponent m e + 1 := by
  have nonzero : r ≠ 0 := by omega
  have least : m.log2 ≤ r.log2 :=
    (Nat.le_log2 nonzero).2 (Nat.le_trans (Nat.log2_self_le positive) low)
  have most : r.log2 < m.log2 + 2 := by
    refine (Nat.log2_lt nonzero).2 (Nat.lt_of_le_of_lt (Nat.le_trans high Nat.lt_log2_self) ?_)
    exact Nat.pow_lt_pow_right (by decide) (Nat.lt_succ_self _)
  simp only [totalExponent_eq]
  omega

/-- **Rounding keeps the place of the first digit, or carries into the next.** -/
theorem roundWithAccuracy_spec (sign : Sign) {m : Nat} {e : Int} (accuracy : Accuracy)
    (positive : m ≠ 0) (least : -1074 ≤ e) (normal : 2 ^ 52 ≤ m ∨ e = -1074) :
    ∃ m' e' h, roundWithAccuracy Format.binary64 sign m e accuracy = .finite sign m' e' h ∧
      Canonical m' e' ∧ totalExponent m e ≤ totalExponent m' e' ∧
      totalExponent m' e' ≤ totalExponent m e + 1 := by
  obtain ⟨r, low, high, rounded⟩ := roundWithAccuracy_eq sign m e accuracy
  obtain ⟨nonzero, -, same, kept, still⟩ := shiftOf_spec positive least
  have nonzero' : r ≠ 0 :=
    Nat.ne_of_gt (Nat.lt_of_lt_of_le (Nat.pos_of_ne_zero nonzero) low)
  obtain ⟨nonzero'', small, same', kept', still'⟩ :=
    shiftOf_spec (m := r) (e := e + shiftOf m e) nonzero' (by omega)
  have carry := totalExponent_succ (e := e + shiftOf m e) nonzero low high
  refine ⟨_, _, Nat.pos_of_ne_zero nonzero'', by rw [rounded, dif_neg nonzero''],
    ⟨nonzero'', small, by omega, ?_⟩, by omega, by omega⟩
  by_cases large : 2 ^ 52 ≤ m
  · exact .inl (kept' (Nat.le_trans (kept large) low))
  · -- a small mantissa has the least exponent and is not shifted
    have exponent : e = -1074 := normal.resolve_left large
    have first : shiftOf m e = 0 := still (by omega)
    rw [first] at high still' ⊢
    have second := still' (by rw [Nat.pow_zero, Nat.div_one] at high; omega)
    rw [Int.natCast_zero, Int.add_zero] at second ⊢
    rw [second]
    exact .inr (by omega)

/-! ## Packing -/

theorem unpackSign_packComponents (sign : Sign) (exponent : BitVec 11) (fraction : BitVec 52) :
    unpackSign (packComponents Format.binary64 sign exponent fraction) = sign.toBitVec := by
  have taken : unpackSign (packComponents Format.binary64 sign exponent fraction) =
      (sign.toBitVec ++ exponent ++ fraction).extractLsb 63 63 := rfl
  refine BitVec.eq_of_getLsbD_eq fun i inside => ?_
  have only : i = 0 := by omega
  subst only
  rw [taken, BitVec.getLsbD_extractLsb, BitVec.getLsbD_append, BitVec.getLsbD_append]
  rfl

/-- A packed number is read by its fields. -/
theorem unpack_pack {u : UnpackedFloat} {sign : Sign} {exponent : BitVec 11}
    {fraction : BitVec 52}
    (packed : pack Format.binary64 u = packComponents Format.binary64 sign exponent fraction) :
    (Float.Model.pack u).unpack =
      unpacked (.ofFields (sign.toBitVec.toNat == 1) exponent.toNat fraction.toNat) := by
  have decoded := (unpack_eq (.ofModel (.pack u))).trans (congrArg unpacked (decode_eq _))
  have bits : bitsOf (.ofModel (.pack u)) = packComponents Format.binary64 sign exponent fraction :=
    packed
  rw [bits, unpackSign_packComponents, unpackExponent_packComponents,
    unpackMantissa_packComponents] at decoded
  exact decoded

theorem signOf_toBitVec (sign : Sign) : signOf (sign.toBitVec.toNat == 1) = sign := by
  cases sign <;> rfl

theorem unpack_pack_infinity (sign : Sign) :
    (Float.Model.pack (.infinity sign)).unpack = .infinity sign := by
  cases sign <;> rfl

theorem unpack_pack_nan : (Float.Model.pack .notANumber).unpack = .notANumber := by rfl

theorem unpack_pack_zero (sign : Sign) : (Float.Model.pack (.zero sign)).unpack = .zero sign := by
  cases sign <;> rfl

theorem pack_finite (sign : Sign) {m : Nat} {e : Int} (h : 0 < m) :
    pack Format.binary64 (.finite sign m e h) =
      if 971 < e then packedInfinity Format.binary64 sign
      else if m.log2 = 52 then
        packComponents Format.binary64 sign (.ofNat 11 (e + 1075).toNat) (.ofNat 52 m)
      else packComponents Format.binary64 sign 0#11 (.ofNat 52 m) := by
  have bias : e + (Format.binary64.exponentBias : Nat) + (52 : Nat) = e + 1075 := by
    have same : ((Format.binary64.exponentBias : Nat) : Int) = 1023 := rfl
    rw [same]
    omega
  have top : 2 ^ 11 ≤ (e + 1075).toNat + 1 ↔ 971 < e := by omega
  have bits : m.log2 + 1 = Format.binary64.mantissaBits ↔ m.log2 = 52 := by
    have same : Format.binary64.mantissaBits = 53 := rfl
    rw [same]
    omega
  delta pack
  dsimp only
  rw [bias]
  simp only [top, bits]

/-- **A rounded number is kept in its bits, or it is too large for them.** -/
theorem unpack_pack_finite (sign : Sign) {m : Nat} {e : Int} (h : 0 < m)
    (canonical : Canonical m e) :
    (Float.Model.pack (.finite sign m e h)).unpack =
      if 971 < e then .infinity sign else .finite sign m e h := by
  have packed := pack_finite sign (e := e) h
  by_cases large : 971 < e
  · rw [if_pos large] at packed ⊢
    exact (congrArg (unpack Format.binary64) packed).trans (unpack_pack_infinity sign)
  · rw [if_neg large] at packed ⊢
    have least := canonical.least
    have exponent : (BitVec.ofNat 11 (e + 1075).toNat).toNat = (e + 1075).toNat := by
      rw [BitVec.toNat_ofNat, Nat.mod_eq_of_lt (by omega)]
    by_cases bits : m.log2 = 52
    · rw [if_pos bits] at packed
      have normal : 2 ^ 52 ≤ m := by
        rw [← bits]
        exact Nat.log2_self_le canonical.positive
      have fraction : (BitVec.ofNat 52 m).toNat = m - 2 ^ 52 := by
        have small := canonical.small
        rw [BitVec.toNat_ofNat]
        omega
      rw [unpack_pack packed, exponent, fraction, Decoded.ofFields, if_neg (by omega),
        if_neg (by omega), unpacked, signOf_toBitVec]
      have mantissa : Nat.pow 2 52 + (m - 2 ^ 52) = m := Nat.add_sub_cancel' normal
      rw [dif_pos (by dsimp only; omega)]
      exact finite_congr mantissa (by dsimp only; omega) _ _
    · rw [if_neg bits] at packed
      have subnormal : m < 2 ^ 52 := by
        have digits : m.log2 < 53 := (Nat.log2_lt canonical.positive).2 canonical.small
        exact (Nat.log2_lt canonical.positive).1 (by omega)
      have fraction : (BitVec.ofNat 52 m).toNat = m := by
        rw [BitVec.toNat_ofNat, Nat.mod_eq_of_lt subnormal]
      have same : e = -1074 := canonical.normal.resolve_left (Nat.not_le_of_lt subnormal)
      rw [unpack_pack packed, fraction, Decoded.ofFields, if_neg (by decide),
        if_pos (show (0#11).toNat = 0 from rfl), unpacked, signOf_toBitVec, dif_pos h]
      exact finite_congr rfl same.symm _ _

/-- A number with a small exponent is not too large for its bits. -/
theorem isFinite_unpack_pack {u : UnpackedFloat} (bounded : Bounded 971 u) :
    (Float.Model.pack u).unpack.isFinite = true := by
  cases u with
  | notANumber => exact bounded.elim
  | infinity sign => exact bounded.elim
  | zero sign => rw [unpack_pack_zero]; rfl
  | finite sign m e h =>
      have small : ¬971 < e := Int.not_lt.2 bounded
      have packed := pack_finite sign (e := e) h
      rw [if_neg small] at packed
      have fields (exponent : BitVec 11) (fraction : BitVec 52) (proper : exponent.toNat ≠ 2047)
          (same : pack Format.binary64 (.finite sign m e h) =
            packComponents Format.binary64 sign exponent fraction) :
          (Float.Model.pack (.finite sign m e h)).unpack.isFinite = true := by
        rw [unpack_pack same, Decoded.ofFields, if_neg proper]
        split <;> exact isFinite_unpacked _
      by_cases bits : m.log2 = 52
      · rw [if_pos bits] at packed
        refine fields _ _ ?_ packed
        rw [BitVec.toNat_ofNat]
        omega
      · rw [if_neg bits] at packed
        exact fields _ _ (by decide) packed

end Infographic.Number
