/-
# Infographic.Proofs.FloatOrder -- numbers in their order

Finite numbers are multiples of the least positive one, and as stored they are compared as these
integers are (`units`, `compare_stored`).  With an infinity at either end all numbers stand in one
order (`rank`): what is less or not greater is so by rank (`lt_iff`, `le_iff`), and nothing but the
infinity itself is at its end (`eq_infinity`, `eq_neg_infinity`).  What is no number is neither
above nor below anything.
-/
import Infographic.Proofs.FloatRounding
import Mathlib.Data.Prod.Lex
import Mathlib.Order.Compare

namespace Infographic.Number

set_option autoImplicit false

open Float.Model (UnpackedFloat)
open Float.Model.UnpackedFloat

/-! ## Units -/

/-- A positive number in units of the least one. -/
def size (m : Nat) (e : Int) : Nat := m * 2 ^ (e + 1074).toNat

/-- A finite number in units of the least positive one. -/
def units : UnpackedFloat → Int
  | .finite sign m e _ => sign.apply (size m e)
  | _ => 0

/-! ## Comparing finite numbers -/

/-- A finite number as it is stored. -/
def Stored : UnpackedFloat → Prop
  | .zero _ => True
  | .finite _ m e _ => Canonical m e
  | _ => False

theorem stored_unpacked {d : Dyadic}
    (canonical : d.mantissa ≠ 0 → Canonical d.mantissa d.exponent) :
    Stored (unpacked (.finite d)) := by
  rw [unpacked]
  by_cases positive : 0 < d.mantissa
  · rw [dif_pos positive]
    exact canonical (Nat.ne_of_gt positive)
  · rw [dif_neg positive]
    trivial

theorem stored_unpack {x : Float} (finite : x.isFinite = true) : Stored x.toModel.unpack := by
  obtain ⟨d, decoded⟩ := isFinite_iff.1 finite
  rw [unpack_eq, decoded]
  refine stored_unpacked fun positive => ?_
  have fraction := (unpackMantissa (bitsOf x)).isLt
  change _ < 2 ^ 52 at fraction
  rw [decode_eq, Decoded.ofFields] at decoded
  split at decoded
  · split at decoded <;> cases decoded
  · split at decoded
    · cases decoded
      exact ⟨positive, Nat.lt_trans fraction (by decide), Int.le_refl _, .inr rfl⟩
    · cases decoded
      have whole : Nat.pow 2 52 = 2 ^ 52 := rfl
      refine ⟨positive, ?_, ?_, .inl ?_⟩ <;> dsimp only <;> omega

/-- Numbers with larger exponents are larger. -/
theorem size_lt {m n : Nat} {e f : Int} (first : Canonical m e) (second : Canonical n f)
    (order : e < f ∨ e = f ∧ m < n) : size m e < size n f := by
  rcases order with above | ⟨rfl, more⟩
  · have least := first.least
    have normal : 2 ^ 52 ≤ n := second.normal.resolve_right (by omega)
    calc size m e < 2 ^ 53 * 2 ^ (e + 1074).toNat :=
          Nat.mul_lt_mul_of_pos_right first.small (Nat.two_pow_pos _)
      _ = 2 ^ 52 * 2 ^ ((e + 1074).toNat + 1) := by
          rw [← Nat.pow_add, ← Nat.pow_add, Nat.add_left_comm, Nat.add_comm]
      _ ≤ n * 2 ^ (f + 1074).toNat := by
          refine Nat.mul_le_mul normal (Nat.pow_le_pow_right (by decide) ?_)
          omega
  · exact Nat.mul_lt_mul_of_pos_right more (Nat.two_pow_pos _)

/-- Positive numbers are compared by their exponents, then by their mantissas. -/
theorem compare_size {m n : Nat} {e f : Int} (first : Canonical m e) (second : Canonical n f) :
    (compare e f).then (compare m n) = cmp (size m e : Int) (size n f) := by
  rcases Int.lt_trichotomy e f with below | rfl | above
  · have sizes := Int.ofNat_lt.2 (size_lt first second (.inl below))
    rw [Int.compare_eq_lt.2 below, sizes.cmp_eq_lt]
    rfl
  · rw [Std.compare_self, Ordering.eq_then]
    rcases Nat.lt_trichotomy m n with below | rfl | above
    · have sizes := Int.ofNat_lt.2 (size_lt first second (.inr ⟨rfl, below⟩))
      rw [Nat.compare_eq_lt.2 below, sizes.cmp_eq_lt]
    · rw [Std.compare_self, cmp_self_eq_eq]
    · have sizes := Int.ofNat_lt.2 (size_lt second first (.inr ⟨rfl, above⟩))
      rw [Nat.compare_eq_gt.2 above, sizes.cmp_eq_gt]
  · have sizes := Int.ofNat_lt.2 (size_lt second first (.inl above))
    rw [Int.compare_eq_gt.2 above, sizes.cmp_eq_gt]
    rfl

theorem size_pos {m : Nat} (positive : 0 < m) (e : Int) : (0 : Int) < size m e :=
  Int.ofNat_lt.2 (Nat.mul_pos positive (Nat.two_pow_pos _))

/-- Finite numbers are compared by their units. -/
theorem compare_stored {u v : UnpackedFloat} (first : Stored u) (second : Stored v) :
    u.compare v = some (cmp (units u) (units v)) := by
  cases u with
  | notANumber => exact first.elim
  | infinity sign => exact first.elim
  | zero sign =>
      cases v with
      | notANumber => exact second.elim
      | infinity sign' => exact second.elim
      | zero sign' => rfl
      | finite sign' n f h' =>
          have positive := size_pos h' f
          cases sign' with
          | negative => exact congrArg some (Int.neg_neg_of_pos positive).cmp_eq_gt.symm
          | positive => exact congrArg some positive.cmp_eq_lt.symm
  | finite sign m e h =>
      have positive := size_pos h e
      cases v with
      | notANumber => exact second.elim
      | infinity sign' => exact second.elim
      | zero sign' =>
          cases sign with
          | negative => exact congrArg some (Int.neg_neg_of_pos positive).cmp_eq_lt.symm
          | positive => exact congrArg some positive.cmp_eq_gt.symm
      | finite sign' n f h' =>
          have positive' := size_pos h' f
          cases sign <;> cases sign'
          case negative.negative =>
            refine congrArg some ?_
            have anti : StrictAnti (Neg.neg : Int → Int) := fun _ _ => Int.neg_lt_neg
            rw [compare_size first second, cmp_swap]
            exact (anti.cmp_map_eq _ _).symm
          case negative.positive =>
            exact congrArg some (Int.lt_trans (Int.neg_neg_of_pos positive) positive').cmp_eq_lt.symm
          case positive.negative =>
            exact congrArg some (Int.lt_trans (Int.neg_neg_of_pos positive') positive).cmp_eq_gt.symm
          case positive.positive => exact congrArg some (compare_size first second)

/-- A number that is not larger has no more units. -/
theorem units_le {u v : UnpackedFloat} (first : Stored u) (second : Stored v)
    (order : u.le v = true) : units u ≤ units v := by
  rw [UnpackedFloat.le, compare_stored first second, Option.any_some] at order
  refine not_lt.1 fun above => ?_
  rw [LT.lt.cmp_eq_gt above] at order
  exact Bool.false_ne_true order

/-! ## The infinities -/

/-- A number as it is stored, finite or not. -/
def Ranked : UnpackedFloat → Prop
  | .infinity _ => True
  | u => Stored u

/-- Where a number stands in the order of all numbers: below, among or above the finite ones. -/
def rank : UnpackedFloat → Int ×ₗ Int
  | .infinity .negative => toLex (-1, 0)
  | .infinity .positive => toLex (1, 0)
  | u => toLex (0, units u)

theorem rank_stored {u : UnpackedFloat} (stored : Stored u) : rank u = toLex (0, units u) := by
  cases u with
  | infinity sign => exact stored.elim
  | _ => rfl

theorem rank_lt_infinity {u : UnpackedFloat} (other : u ≠ .infinity .positive) :
    rank u < rank (.infinity .positive) := by
  cases u with
  | infinity sign =>
      cases sign with
      | negative => decide +kernel
      | positive => exact absurd rfl other
  | _ => exact Prod.Lex.toLex_lt_toLex.2 (.inl Int.zero_lt_one)

theorem neg_infinity_lt_rank {u : UnpackedFloat} (other : u ≠ .infinity .negative) :
    rank (.infinity .negative) < rank u := by
  cases u with
  | infinity sign =>
      cases sign with
      | negative => exact absurd rfl other
      | positive => decide +kernel
  | _ => exact Prod.Lex.toLex_lt_toLex.2 (.inl (Int.neg_neg_of_pos Int.zero_lt_one))

/-- An infinity is beyond every finite number. -/
theorem compare_infinity {v : UnpackedFloat} (stored : Stored v) (sign : Sign) :
    (UnpackedFloat.infinity sign).compare v = some (cmp (rank (.infinity sign)) (rank v)) ∧
      v.compare (.infinity sign) = some (cmp (rank v) (rank (.infinity sign))) := by
  have other (sign : Sign) : v ≠ .infinity sign := by
    rintro rfl
    exact stored
  cases sign with
  | negative =>
      have below := neg_infinity_lt_rank (other .negative)
      rw [below.cmp_eq_lt, below.cmp_eq_gt]
      cases v with
      | notANumber => exact stored.elim
      | infinity sign => exact stored.elim
      | _ => exact ⟨rfl, rfl⟩
  | positive =>
      have above := rank_lt_infinity (other .positive)
      rw [above.cmp_eq_lt, above.cmp_eq_gt]
      cases v with
      | notANumber => exact stored.elim
      | infinity sign => exact stored.elim
      | _ => exact ⟨rfl, rfl⟩

theorem Ranked.cases {u : UnpackedFloat} (ranked : Ranked u) :
    Stored u ∨ ∃ sign, u = .infinity sign := by
  cases u with
  | infinity sign => exact .inr ⟨sign, rfl⟩
  | _ => exact .inl ranked

/-- Numbers are compared by their ranks. -/
theorem compare_eq {u v : UnpackedFloat} (first : Ranked u) (second : Ranked v) :
    u.compare v = some (cmp (rank u) (rank v)) := by
  rcases first.cases with low | ⟨sign, rfl⟩ <;> rcases second.cases with high | ⟨sign', rfl⟩
  · have embed : StrictMono fun n : Int => toLex ((0 : Int), n) := fun _ _ less =>
      Prod.Lex.toLex_lt_toLex.2 (.inr ⟨rfl, less⟩)
    rw [compare_stored low high, rank_stored low, rank_stored high]
    exact congrArg some (embed.cmp_map_eq _ _).symm
  · exact (compare_infinity low sign').2
  · exact (compare_infinity high sign).1
  · cases sign <;> cases sign' <;> decide +kernel

theorem ranked_unpack {x : Float} (number : x.isNaN = false) : Ranked x.toModel.unpack := by
  cases form : x.toModel.unpack with
  | notANumber => exact Bool.false_ne_true (number.symm.trans (isNaN_iff.2 form))
  | infinity sign => trivial
  | zero sign => trivial
  | finite sign m e h =>
      have finite : x.isFinite = true := congrArg UnpackedFloat.isFinite form
      have stored := stored_unpack finite
      rwa [form] at stored

/-! ## Comparing floats -/

variable {x y z : Float}

theorem lt_iff (first : x.isNaN = false) (second : y.isNaN = false) :
    x < y ↔ rank x.toModel.unpack < rank y.toModel.unpack := by
  have less : x < y ↔ x.toModel.unpack.lt y.toModel.unpack = true := decide_eq_true_iff
  rw [less, UnpackedFloat.lt, compare_eq (ranked_unpack first) (ranked_unpack second),
    ← cmp_eq_lt_iff, beq_iff_eq, Option.some.injEq]

theorem le_iff (first : x.isNaN = false) (second : y.isNaN = false) :
    x ≤ y ↔ rank x.toModel.unpack ≤ rank y.toModel.unpack := by
  have most : x ≤ y ↔ x.toModel.unpack.le y.toModel.unpack = true := decide_eq_true_iff
  rw [most, UnpackedFloat.le, compare_eq (ranked_unpack first) (ranked_unpack second),
    Option.any_some, ← not_lt, ← cmp_eq_gt_iff]
  cases cmp (rank x.toModel.unpack) (rank y.toModel.unpack) <;> decide

/-- Nothing is below or above what is no number. -/
theorem not_lt_of_isNaN (nan : x.isNaN = true) : ¬ x < y ∧ ¬ y < x := by
  have less (x y : Float) : x < y ↔ x.toModel.unpack.lt y.toModel.unpack = true :=
    decide_eq_true_iff
  rw [less, less, isNaN_iff.1 nan]
  constructor
  · exact Bool.false_ne_true
  · cases y.toModel.unpack <;> exact Bool.false_ne_true

/-- What is below or above something is a number. -/
theorem isNaN_eq_false_of_lt (less : x < y ∨ y < x) : x.isNaN = false := by
  refine Bool.eq_false_iff.2 fun nan => ?_
  obtain ⟨below, above⟩ := not_lt_of_isNaN (y := y) nan
  exact less.elim below above

theorem not_lt_iff (first : x.isNaN = false) (second : y.isNaN = false) : ¬ x < y ↔ y ≤ x := by
  rw [lt_iff first second, le_iff second first, not_lt]

theorem le_self (number : x.isNaN = false) : x ≤ x :=
  (le_iff number number).2 le_rfl

theorem le_trans (first : x.isNaN = false) (second : y.isNaN = false) (third : z.isNaN = false)
    (low : x ≤ y) (high : y ≤ z) : x ≤ z := by
  rw [le_iff first second] at low
  rw [le_iff second third] at high
  exact (le_iff first third).2 (low.trans high)

theorem le_of_lt (first : x.isNaN = false) (second : y.isNaN = false) (less : x < y) : x ≤ y :=
  (le_iff first second).2 ((lt_iff first second).1 less).le

theorem eq_of_toNat_toBits (same : x.toBits.toNat = y.toBits.toNat) : x = y := by
  obtain ⟨⟨bits, valid⟩⟩ := x
  obtain ⟨⟨bits', valid'⟩⟩ := y
  obtain rfl : bits = bits' := UInt64.toNat_inj.1 same
  rfl

theorem unpacked_eq_infinity {d : Decoded} {sign : Sign} (same : unpacked d = .infinity sign) :
    ∃ negative, d = .infinite negative ∧ signOf negative = sign := by
  cases d with
  | nan => cases same
  | infinite negative => exact ⟨negative, rfl, UnpackedFloat.infinity.inj same⟩
  | finite value =>
      rw [unpacked] at same
      by_cases positive : 0 < value.mantissa
      · rw [dif_pos positive] at same
        cases same
      · rw [dif_neg positive] at same
        cases same

/-- An infinity has one pattern of bits. -/
theorem toNat_toBits_infinite {negative : Bool} (infinite : decode x = .infinite negative) :
    x.toBits.toNat = negative.toNat * 2 ^ 63 + 2047 * 2 ^ 52 := by
  have width : x.toBits.toNat < 2 ^ 64 := x.toBits.toBitVec.isLt
  unfold decode at infinite
  simp only [Nat.pow_eq] at infinite
  split at infinite
  · split at infinite
    · obtain rfl := Decoded.infinite.inj infinite
      by_cases top : x.toBits.toNat / 2 ^ 63 = 1
      · simp only [top, beq_self_eq_true, Bool.toNat_true]
        omega
      · simp only [beq_eq_false_iff_ne.2 top, Bool.toNat_false]
        omega
    · cases infinite
  · split at infinite <;> cases infinite

/-- There is one infinity of each sign. -/
theorem eq_of_unpack_infinity {sign : Sign} (first : x.toModel.unpack = .infinity sign)
    (second : y.toModel.unpack = .infinity sign) : x = y := by
  rw [unpack_eq] at first second
  obtain ⟨negative, decoded, rfl⟩ := unpacked_eq_infinity first
  obtain ⟨negative', decoded', same⟩ := unpacked_eq_infinity second
  obtain rfl : negative' = negative := by
    cases negative <;> cases negative' <;> first | rfl | cases same
  exact eq_of_toNat_toBits ((toNat_toBits_infinite decoded).trans
    (toNat_toBits_infinite decoded').symm)

theorem eq_infinity (number : x.isNaN = false) (above : ¬ x < infinity) : x = infinity := by
  have top : infinity.toModel.unpack = .infinity .positive := by
    rw [unpack_eq, show decode infinity = .infinite false by decide +kernel]
    rfl
  rw [lt_iff number (by decide +kernel), top] at above
  exact eq_of_unpack_infinity (not_not.1 (mt rank_lt_infinity above)) top

theorem eq_neg_infinity (number : x.isNaN = false) (below : ¬ -infinity < x) : x = -infinity := by
  have bottom : (-infinity).toModel.unpack = .infinity .negative := by
    rw [unpack_eq, show decode (-infinity) = .infinite true by decide +kernel]
    rfl
  rw [lt_iff (by decide +kernel) number, bottom] at below
  exact eq_of_unpack_infinity (not_not.1 (mt neg_infinity_lt_rank below)) bottom

end Infographic.Number
