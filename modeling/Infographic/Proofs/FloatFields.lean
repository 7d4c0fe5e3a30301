/-
# Infographic.Proofs.FloatFields -- a number and its fields

Arithmetic on floats is defined on unpacked numbers, `decode` reads the fields of the packed
form.  Both take the same fields from the bits, so what `decode` says of a number is what it
is in arithmetic.
-/
import Infographic.Number.Dyadic

namespace Infographic.Number

set_option autoImplicit false

open Float.Model (Format)
open Float.Model.UnpackedFloat (Sign unpackSign unpackExponent unpackMantissa)

variable {x : Float}

/-! ## Fields -/

/-- The bits of a float. -/
def bitsOf (x : Float) : BitVec Format.binary64.numBits := x.toModel.toBits.toBitVec

theorem toNat_unpackExponent (x : Float) :
    (unpackExponent (bitsOf x)).toNat = x.toBits.toNat / Nat.pow 2 52 % Nat.pow 2 11 := by
  rw [unpackExponent, BitVec.toNat_cast, BitVec.extractLsb_toNat, Nat.shiftRight_eq_div_pow]
  rfl

theorem toNat_unpackMantissa (x : Float) :
    (unpackMantissa (bitsOf x)).toNat = x.toBits.toNat % Nat.pow 2 52 := by
  rw [unpackMantissa, BitVec.toNat_cast, BitVec.extractLsb_toNat, Nat.shiftRight_eq_div_pow,
    Nat.pow_zero, Nat.div_one]
  rfl

theorem toNat_unpackSign (x : Float) :
    (unpackSign (bitsOf x)).toNat = x.toBits.toNat / Nat.pow 2 63 := by
  have small : (bitsOf x).toNat < 2 ^ 64 := (bitsOf x).isLt
  have same : x.toBits.toNat = (bitsOf x).toNat := rfl
  have taken : (unpackSign (bitsOf x)).toNat =
      (((bitsOf x).extractLsb 63 63).cast rfl : BitVec 1).toNat := rfl
  rw [taken, BitVec.toNat_cast, BitVec.extractLsb_toNat, Nat.shiftRight_eq_div_pow, same]
  simp only [Nat.pow_eq]
  omega

/-- What a float stands for, by its fields. -/
def Decoded.ofFields (negative : Bool) (exponent fraction : Nat) : Decoded :=
  if exponent = 2047 then
    if fraction = 0 then .infinite negative else .nan
  else if exponent = 0 then .finite ⟨negative, fraction, -1074⟩
  else .finite ⟨negative, Nat.pow 2 52 + fraction, (exponent : Int) - 1075⟩

theorem decode_eq (x : Float) :
    decode x = .ofFields ((unpackSign (bitsOf x)).toNat == 1) (unpackExponent (bitsOf x)).toNat
      (unpackMantissa (bitsOf x)).toNat := by
  rw [toNat_unpackSign, toNat_unpackExponent, toNat_unpackMantissa]
  rfl

/-! ## Unpacked numbers -/

/-- The sign of an unpacked number. -/
def signOf (negative : Bool) : Sign := if negative then .negative else .positive

/-- An unpacked number, from what `decode` says. -/
def unpacked : Decoded → Float.Model.UnpackedFloat
  | .nan => .notANumber
  | .infinite negative => .infinity (signOf negative)
  | .finite d =>
      if positive : 0 < d.mantissa then .finite (signOf d.negative) d.mantissa d.exponent positive
      else .zero (signOf d.negative)

theorem isFinite_unpacked (d : Dyadic) : (unpacked (.finite d)).isFinite = true := by
  rw [unpacked]
  by_cases positive : 0 < d.mantissa
  · rw [dif_pos positive]
    rfl
  · rw [dif_neg positive]
    rfl

theorem ofBitVec_eq (bit : BitVec 1) : Sign.ofBitVec bit = signOf (bit.toNat == 1) := by
  rcases BitVec.eq_zero_or_eq_one bit with rfl | rfl <;> rfl

theorem toNat_one_append (fraction : BitVec 52) :
    (1#1 ++ fraction).toNat = Nat.pow 2 52 + fraction.toNat := by
  rw [BitVec.toNat_append, ← Nat.shiftLeft_add_eq_or_of_lt fraction.isLt, Nat.shiftLeft_eq]
  rfl

theorem eq_ones_iff (field : BitVec 11) : field = -1#11 ↔ field.toNat = 2047 := by
  rw [← BitVec.toNat_inj]
  rfl

theorem eq_zero_iff {w : Nat} (field : BitVec w) : field = 0#w ↔ field.toNat = 0 := by
  rw [← BitVec.toNat_inj, BitVec.toNat_ofNat, Nat.zero_mod]

theorem finite_congr {sign : Sign} {m n : Nat} {e f : Int} (mantissa : m = n) (exponent : e = f)
    (hm : 0 < m) (hn : 0 < n) :
    Float.Model.UnpackedFloat.finite sign m e hm = .finite sign n f hn := by
  subst mantissa exponent
  rfl

/-- Unpacking and decoding agree. -/
theorem unpack_eq (x : Float) : x.toModel.unpack = unpacked (decode x) := by
  have unpack : x.toModel.unpack = Float.Model.UnpackedFloat.unpack .binary64 (bitsOf x) := rfl
  have bias : ((Format.binary64.exponentBias : Nat) : Int) = 1023 := rfl
  have ones := eq_ones_iff (unpackExponent (bitsOf x))
  have zero := eq_zero_iff (unpackExponent (bitsOf x))
  have none := eq_zero_iff (unpackMantissa (bitsOf x))
  rw [unpack, decode_eq, Decoded.ofFields]
  delta Float.Model.UnpackedFloat.unpack
  dsimp only
  rw [ofBitVec_eq]
  by_cases special : unpackExponent (bitsOf x) = -1#11
  · rw [if_pos special, if_pos (ones.1 special)]
    by_cases infinite : unpackMantissa (bitsOf x) = 0#52
    · rw [if_pos infinite, if_pos (none.1 infinite), unpacked]
    · rw [if_neg infinite, if_neg fun h => infinite (none.2 h), unpacked]
  · rw [if_neg special, if_neg fun h => special (ones.2 h)]
    by_cases subnormal : unpackExponent (bitsOf x) = 0#11
    · have least : (((unpackExponent (bitsOf x)).toNat : Int)
          - ((Format.binary64.exponentBias : Nat) + (52 : Nat)) + 1) = -1074 := by
        rw [zero.1 subnormal, bias]
        rfl
      rw [if_pos subnormal, if_pos (zero.1 subnormal), unpacked]
      by_cases nothing : unpackMantissa (bitsOf x) = 0#52
      · rw [dif_pos nothing, dif_neg (by simp [none.1 nothing])]
      · have positive : 0 < (unpackMantissa (bitsOf x)).toNat :=
          Nat.pos_of_ne_zero fun h => nothing (none.2 h)
        rw [dif_neg nothing, dif_pos positive]
        exact finite_congr rfl least _ _
    · have positive : 0 < Nat.pow 2 52 + (unpackMantissa (bitsOf x)).toNat :=
        Nat.add_pos_left (by decide) _
      have offset (n : Int) : n - ((Format.binary64.exponentBias : Nat) + (52 : Nat)) =
          n - 1075 := by
        rw [bias]
        rfl
      rw [if_neg subnormal, if_neg fun h => subnormal (zero.2 h), unpacked, dif_pos positive]
      exact finite_congr (toNat_one_append _) (offset _) _ _

theorem isFinite_iff : x.isFinite = true ↔ ∃ d, decode x = .finite d := by
  rw [Float.isFinite, Float.Model.isFinite, unpack_eq]
  cases decode x with
  | nan => exact iff_of_false Bool.false_ne_true (by simp)
  | infinite negative => exact iff_of_false Bool.false_ne_true (by simp)
  | finite d => exact iff_of_true (isFinite_unpacked d) ⟨d, rfl⟩

theorem isInf_iff : x.isInf = true ↔ ∃ negative, decode x = .infinite negative := by
  rw [Float.isInf, Float.Model.isInf, unpack_eq]
  cases decode x with
  | nan => simp [unpacked, Float.Model.UnpackedFloat.isInf]
  | infinite negative => simp [unpacked, Float.Model.UnpackedFloat.isInf]
  | finite d =>
      rw [unpacked]
      by_cases positive : 0 < d.mantissa
      · rw [dif_pos positive]
        exact iff_of_false Bool.false_ne_true (by simp)
      · rw [dif_neg positive]
        exact iff_of_false Bool.false_ne_true (by simp)

theorem isNaN_iff : x.isNaN = true ↔ x.toModel.unpack = .notANumber := by
  have nan : x.isNaN = x.toModel.unpack.isNaN := rfl
  rw [nan]
  cases x.toModel.unpack with
  | notANumber => exact iff_of_true rfl rfl
  | infinity sign => exact iff_of_false Bool.false_ne_true Float.Model.UnpackedFloat.noConfusion
  | zero sign => exact iff_of_false Bool.false_ne_true Float.Model.UnpackedFloat.noConfusion
  | finite sign mantissa exponent positive =>
      exact iff_of_false Bool.false_ne_true Float.Model.UnpackedFloat.noConfusion

end Infographic.Number
