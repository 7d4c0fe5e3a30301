/-
# Infographic.Proofs.NormalizedRange -- when a value in a range has a finite place

A difference of finite numbers has its first binary digit where the difference of their units has
it, or one place further (`stands_sub`).  So the distance of a number from the lower end of a range
it lies in is not much longer than the range, and their quotient cannot overflow
(`isFinite_div_sub`): only the distance itself can.
-/
import Infographic.Proofs.FloatOrder
import Infographic.Table.Basic
import Mathlib.Algebra.Ring.Int.Defs

namespace Infographic.Number

set_option autoImplicit false

open Float.Model (Format UnpackedFloat totalExponent)
open Float.Model.UnpackedFloat

/-! ## Places -/

/-- Where the first binary digit of a number of units stands. -/
def place (n : Int) : Int := n.natAbs.log2 - 1073

theorem log2_mul_two_pow {m : Nat} (positive : m ≠ 0) (k : Nat) :
    (m * 2 ^ k).log2 = m.log2 + k := by
  have nonzero : m * 2 ^ k ≠ 0 := Nat.mul_ne_zero positive (Nat.ne_of_gt (Nat.two_pow_pos k))
  refine (Nat.log2_eq_iff nonzero).2 ⟨?_, ?_⟩
  · rw [Nat.pow_add]
    exact Nat.mul_le_mul_right _ (Nat.log2_self_le positive)
  · rw [Nat.add_right_comm, Nat.pow_add]
    exact Nat.mul_lt_mul_of_pos_right Nat.lt_log2_self (Nat.two_pow_pos k)

theorem size_ne_zero {m : Nat} (positive : m ≠ 0) (e : Int) : size m e ≠ 0 :=
  Nat.mul_ne_zero positive (Nat.ne_of_gt (Nat.two_pow_pos _))

theorem place_size {m : Nat} {e : Int} (positive : m ≠ 0) (least : -1074 ≤ e) :
    place (size m e) = totalExponent m e := by
  rw [place, Int.natAbs_natCast, size, log2_mul_two_pow positive, totalExponent_eq]
  omega

theorem natAbs_apply (sign : Sign) (n : Int) : (sign.apply n).natAbs = n.natAbs := by
  cases sign with
  | negative => exact Int.natAbs_neg n
  | positive => rfl

theorem place_apply (sign : Sign) (n : Int) : place (sign.apply n) = place n := by
  rw [place, place, natAbs_apply]

/-- More units have no earlier place. -/
theorem place_mono {m n : Int} (nonzero : n ≠ 0) (most : m.natAbs ≤ n.natAbs) :
    place m ≤ place n := by
  have digits : m.natAbs.log2 ≤ n.natAbs.log2 := by
    rcases Nat.eq_zero_or_pos m.natAbs with zero | positive
    · rw [zero]
      exact Nat.zero_le _
    · refine (Nat.le_log2 (Int.natAbs_ne_zero.2 nonzero)).2 ?_
      exact Nat.le_trans (Nat.log2_self_le (Nat.ne_of_gt positive)) most
  rw [place, place]
  omega

/-! ## Differences -/

/-- A rounded number stands for some units: its first digit is at their place, or it carried into
the next one. -/
def Stands (n : Int) : UnpackedFloat → Prop
  | .zero _ => n = 0
  | .finite _ m e _ =>
      n ≠ 0 ∧ Canonical m e ∧ place n ≤ totalExponent m e ∧ totalExponent m e ≤ place n + 1
  | _ => False

/-- A stored number stands for its own units, with any sign. -/
theorem stands_apply {m : Nat} {e : Int} (canonical : Canonical m e) (sign sign' : Sign)
    (h : 0 < m) :
    Stands (sign'.apply (size m e)) (.finite sign m e h) := by
  have nonzero := size_ne_zero canonical.positive e
  have same : place (sign'.apply (size m e)) = totalExponent m e := by
    rw [place_apply, place_size canonical.positive canonical.least]
  refine ⟨fun none => nonzero ?_, canonical, Int.le_of_eq same, by omega⟩
  rw [← Int.natAbs_natCast (size m e), ← natAbs_apply sign', none]
  rfl

/-- Rounding to the format keeps the place. -/
theorem stands_round (sign : Sign) {m : Nat} {e : Int} (positive : m ≠ 0) (least : -1074 ≤ e)
    {n : Int} (same : n.natAbs = size m e) :
    Stands n (UnpackedFloat.round Format.binary64 sign m e) := by
  have total : place n = totalExponent m e := by
    rw [← place_size positive least, place, place, same, Int.natAbs_natCast]
  have nonzero : n ≠ 0 := fun none => size_ne_zero positive e (by rw [← same, none]; rfl)
  let k := (e - Format.binary64.targetExponent (totalExponent m e)).toNat
  have rounded : UnpackedFloat.round Format.binary64 sign m e =
      roundWithAccuracy Format.binary64 sign (m * 2 ^ k) (e - k) .exact := by
    rw [← Nat.shiftLeft_eq]
    rfl
  have digits : (m * 2 ^ k).log2 = m.log2 + k := log2_mul_two_pow positive k
  have shift : k = (e - max (m.log2 + 1 + e - 53) (-1074)).toNat := rfl
  have positive' : m * 2 ^ k ≠ 0 := Nat.mul_ne_zero positive (Nat.ne_of_gt (Nat.two_pow_pos k))
  have normal : 2 ^ 52 ≤ m * 2 ^ k ∨ e - k = -1074 := by
    rw [← Nat.le_log2 positive', digits]
    omega
  obtain ⟨m', e', h, made, canonical, low, high⟩ :=
    roundWithAccuracy_spec sign .exact positive' (by omega) normal
  have kept : totalExponent (m * 2 ^ k) (e - k) = totalExponent m e := by
    rw [totalExponent_eq, totalExponent_eq, digits]
    omega
  rw [kept] at low high
  rw [rounded, made]
  exact ⟨nonzero, canonical, total ▸ low, total ▸ high⟩

theorem stands_normalize {m e : Int} (least : -1074 ≤ e) (sign : Sign) :
    Stands (m * 2 ^ (e + 1074).toNat) (UnpackedFloat.normalize Format.binary64 m e sign) := by
  have magnitude (m' : Nat) (same : m.natAbs = m') :
      (m * 2 ^ (e + 1074).toNat).natAbs = size m' e := by
    rw [Int.natAbs_mul, Int.natAbs_pow, same]
    rfl
  rw [UnpackedFloat.normalize]
  split
  · rename_i below
    have negative : m < 0 := Int.compare_eq_lt.1 below
    exact stands_round _ (by omega) least (magnitude _ (by omega))
  · rename_i none
    have zero : m = 0 := Std.compare_eq_iff_eq.1 none
    rw [zero, Int.zero_mul]
    rfl
  · rename_i above
    have positive : 0 < m := Int.compare_eq_gt.1 above
    exact stands_round _ (by omega) least (magnitude _ (by omega))

/-- A larger mantissa with a smaller exponent is as large. -/
theorem size_shift {m : Nat} {e f : Int} (least : -1074 ≤ f) (most : f ≤ e) (sign : Sign) :
    sign.apply (size m e) =
      sign.apply (m <<< (e - f).toNat : Nat) * 2 ^ (f + 1074).toNat := by
  have exponent : (e + 1074).toNat = (e - f).toNat + (f + 1074).toNat := by omega
  have sizes : size m e = m <<< (e - f).toNat * 2 ^ (f + 1074).toNat := by
    rw [size, exponent, Nat.pow_add, ← Nat.mul_assoc, Nat.shiftLeft_eq m]
  rw [sizes, Int.natCast_mul, Int.natCast_pow]
  cases sign with
  | negative => exact (Int.neg_mul _ _).symm
  | positive => rfl

/-- **A difference stands for the difference of the units.** -/
theorem stands_sub {u v : UnpackedFloat} (first : Stored u) (second : Stored v) :
    Stands (units u - units v) (UnpackedFloat.sub Format.binary64 u v) := by
  cases u with
  | notANumber => exact first.elim
  | infinity sign => exact first.elim
  | zero sign =>
      cases v with
      | notANumber => exact second.elim
      | infinity sign' => exact second.elim
      | zero sign' => cases sign <;> cases sign' <;> exact Int.sub_self 0
      | finite sign' n f h' =>
          have negated : units (.zero sign) - units (.finite sign' n f h') =
              (-sign').apply (size n f) := by
            cases sign' with
            | negative => exact (Int.zero_sub _).trans (Int.neg_neg _)
            | positive => exact Int.zero_sub _
          rw [negated]
          exact stands_apply second _ _ h'
  | finite sign m e h =>
      cases v with
      | notANumber => exact second.elim
      | infinity sign' => exact second.elim
      | zero sign' =>
          have same : units (.finite sign m e h) - units (.zero sign') = sign.apply (size m e) :=
            Int.sub_zero _
          rw [same]
          exact stands_apply first _ _ h
      | finite sign' n f h' =>
          have least : -1074 ≤ min e f := by
            have := first.least
            have := second.least
            omega
          have difference : units (.finite sign m e h) - units (.finite sign' n f h') =
              (sign.apply (m <<< (e - min e f).toNat : Nat) -
                sign'.apply (n <<< (f - min e f).toNat : Nat)) * 2 ^ (min e f + 1074).toNat := by
            change sign.apply (size m e) - sign'.apply (size n f) = _
            rw [size_shift least (Int.min_le_left e f), size_shift least (Int.min_le_right e f),
              Int.sub_mul]
          rw [difference]
          exact stands_normalize least _

/-! ## Quotients -/

theorem log2_div_le {m n : Nat} (positive : n ≠ 0) : (m / n).log2 ≤ m.log2 - n.log2 := by
  rcases Nat.eq_zero_or_pos (m / n) with zero | nonzero
  · rw [zero]
    exact Nat.zero_le _
  · have least : 2 ^ ((m / n).log2 + n.log2) ≤ m := by
      rw [Nat.pow_add]
      calc 2 ^ (m / n).log2 * 2 ^ n.log2 ≤ m / n * n :=
            Nat.mul_le_mul (Nat.log2_self_le (Nat.ne_of_gt nonzero)) (Nat.log2_self_le positive)
        _ ≤ m := Nat.div_mul_le_self m n
    have nonzero' : m ≠ 0 := by
      rintro rfl
      rw [Nat.zero_div] at nonzero
      exact absurd nonzero (Nat.lt_irrefl 0)
    have digits := (Nat.le_log2 nonzero').2 least
    omega

/-- The quotient of a number with an early place is not large. -/
theorem bounded_quotient {m n : Nat} {e f : Int} (sign sign' : Sign) (h : 0 < m) (h' : 0 < n)
    (order : totalExponent m e ≤ totalExponent n f + 1) :
    Bounded 971
      (UnpackedFloat.div Format.binary64 (.finite sign m e h) (.finite sign' n f h')) := by
  let goal := min (e - f) (Format.binary64.targetExponent (totalExponent m e - totalExponent n f))
  have target : goal =
      min (e - f) (max (totalExponent m e - totalExponent n f - 53) (-1074)) := rfl
  let q := (m <<< (e - f - goal).toNat) / n
  have digits : q.log2 ≤ m.log2 + (e - f - goal).toNat - n.log2 := by
    rw [← log2_mul_two_pow (Nat.ne_of_gt h), ← Nat.shiftLeft_eq]
    exact log2_div_le (Nat.ne_of_gt h')
  rw [totalExponent_eq, totalExponent_eq] at order target
  have small (accuracy : Accuracy) :
      Bounded (970 + 1) (roundWithAccuracy Format.binary64 (sign / sign') q goal accuracy) := by
    refine bounded_roundWithAccuracy _ _ (by decide) (by omega) ?_
    rw [totalExponent_eq]
    omega
  exact small _

/-- A quotient of numbers that stand for comparable units is not large. -/
theorem bounded_div {m n : Int} {u v : UnpackedFloat} (first : Stands m u) (second : Stands n v)
    (nonzero : n ≠ 0) (most : m.natAbs ≤ n.natAbs) :
    Bounded 971 (UnpackedFloat.div Format.binary64 u v) := by
  cases v with
  | notANumber => exact second.elim
  | infinity sign' => exact second.elim
  | zero sign' => exact absurd second nonzero
  | finite sign' m₂ e₂ h₂ =>
      cases u with
      | notANumber => exact first.elim
      | infinity sign => exact first.elim
      | zero sign => trivial
      | finite sign m₁ e₁ h₁ =>
          obtain ⟨-, -, -, high⟩ := first
          obtain ⟨-, -, low, -⟩ := second
          have order := place_mono nonzero most
          exact bounded_quotient _ _ h₁ h₂ (by omega)

/-! ## Values in a range -/

/-- Behind its bits a number still stands for its units, unless it is too large for them. -/
theorem stands_unpack_pack {n : Int} {u : UnpackedFloat} (stands : Stands n u) :
    Stands n (Float.Model.pack u).unpack ∨
      n ≠ 0 ∧ ∃ sign, (Float.Model.pack u).unpack = .infinity sign := by
  cases u with
  | notANumber => exact stands.elim
  | infinity sign => exact stands.elim
  | zero sign =>
      rw [unpack_pack_zero]
      exact .inl stands
  | finite sign m e h =>
      rw [unpack_pack_finite sign h stands.2.1]
      by_cases large : 971 < e
      · rw [if_pos large]
        exact .inr ⟨stands.1, sign, rfl⟩
      · rw [if_neg large]
        exact .inl stands

theorem isFinite_of_stands {n : Int} {u : UnpackedFloat} (stands : Stands n u) :
    u.isFinite = true := by
  cases u with
  | notANumber => exact stands.elim
  | infinity sign => exact stands.elim
  | zero sign => rfl
  | finite sign m e h => rfl

/-- The units of a difference of finite numbers. -/
theorem stands_unpack_sub {x y : Float} (first : x.isFinite = true) (second : y.isFinite = true) :
    let n := units x.toModel.unpack - units y.toModel.unpack
    Stands n (x - y).toModel.unpack ∨ n ≠ 0 ∧ ∃ sign, (x - y).toModel.unpack = .infinity sign :=
  stands_unpack_pack (stands_sub (stored_unpack first) (stored_unpack second))

/-- A difference of finite numbers is zero exactly if they have the same units. -/
theorem sub_beq_zero_iff {x y : Float} (first : x.isFinite = true) (second : y.isFinite = true) :
    (x - y == 0.0) = true ↔ units x.toModel.unpack - units y.toModel.unpack = 0 := by
  have zero : (x - y == 0.0) = (x - y).toModel.unpack.beq (.zero .positive) := rfl
  have difference := stands_unpack_sub first second
  rw [zero]
  generalize (x - y).toModel.unpack = u at difference
  rcases difference with stands | ⟨nonzero, sign, rfl⟩
  · cases u with
    | zero sign => exact iff_of_true rfl stands
    | finite sign m e h =>
        refine iff_of_false ?_ stands.1
        cases sign <;> exact Bool.false_ne_true
    | _ => exact stands.elim
  · refine iff_of_false ?_ nonzero
    cases sign <;> exact Bool.false_ne_true

section

variable {x low high : Float} (finite : x.isFinite = true) (least : low.isFinite = true)
  (most : high.isFinite = true) (above : low ≤ x) (below : x ≤ high)

include finite least most above below

/-- A number in a range has units in its range. -/
theorem units_mem :
    units low.toModel.unpack ≤ units x.toModel.unpack ∧
      units x.toModel.unpack ≤ units high.toModel.unpack :=
  ⟨units_le (stored_unpack least) (stored_unpack finite) (of_decide_eq_true above),
    units_le (stored_unpack finite) (stored_unpack most) (of_decide_eq_true below)⟩

/-- In a range without width no distance overflows. -/
theorem isFinite_sub_of_narrow (narrow : (high - low == 0.0) = true) :
    (x - low).isFinite = true := by
  obtain ⟨above, below⟩ := units_mem finite least most above below
  have same := (sub_beq_zero_iff most least).1 narrow
  rcases stands_unpack_sub finite least with stands | ⟨apart, -⟩
  · exact isFinite_of_stands stands
  · exact absurd (by omega) apart

/-- **A distance in a range, divided by its width, is finite exactly if the distance is.** -/
theorem isFinite_div_sub (wide : (high - low == 0.0) = false) :
    ((x - low) / (high - low)).isFinite = (x - low).isFinite := by
  obtain ⟨above, below⟩ := units_mem finite least most above below
  have nonzero : units high.toModel.unpack - units low.toModel.unpack ≠ 0 := fun none => by
    rw [(sub_beq_zero_iff most least).2 none] at wide
    contradiction
  have distance := stands_unpack_sub finite least
  have span := stands_unpack_sub most least
  have quotient : ((x - low) / (high - low)).isFinite =
      (Float.Model.pack (UnpackedFloat.div Format.binary64 (x - low).toModel.unpack
        (high - low).toModel.unpack)).unpack.isFinite := rfl
  have part : (x - low).isFinite = (x - low).toModel.unpack.isFinite := rfl
  rw [quotient, part]
  generalize (x - low).toModel.unpack = u at distance
  generalize (high - low).toModel.unpack = v at span
  rcases distance with near | ⟨-, sign, rfl⟩
  · rw [isFinite_of_stands near]
    rcases span with stands | ⟨-, sign, rfl⟩
    · exact isFinite_unpack_pack (bounded_div near stands nonzero (by omega))
    · -- nothing finite is left over of a width that overflows
      cases u with
      | zero sign' => exact isFinite_unpack_pack trivial
      | finite sign' m e h => exact isFinite_unpack_pack trivial
      | _ => exact near.elim
  · -- a distance that overflows is not finite, and neither is its quotient
    have same : (UnpackedFloat.infinity sign).isFinite = false := rfl
    rw [same]
    cases v with
    | zero sign' => exact congrArg isFinite (unpack_pack_infinity (sign / sign'))
    | finite sign' m e h => exact congrArg isFinite (unpack_pack_infinity (sign / sign'))
    | _ => exact congrArg isFinite unpack_pack_nan

end

end Infographic.Number

namespace Infographic.Table

variable {table : Table} {reference : String} {c : Column} {stats : Stats} {x v : Float}

/-- A value in a finite range is normalized to a finite number exactly if its distance from the
least one is finite. -/
theorem isFinite_of_normalized? (referred : table.referred? reference = some c)
    (known : c.stats = some stats)
    (cell : (table.get? 0 (.name c.name)).bind Cell.number? = some x)
    (above : stats.min ≤ x) (below : x ≤ stats.max)
    (normalized : table.normalized? reference = some v) :
    v.isFinite = (x - stats.min).isFinite := by
  obtain ⟨entry, here, number⟩ := Option.bind_eq_some_iff.1 cell
  simp only [normalized?, referred, known, here, number, Option.bind_eq_bind, Option.bind_some]
    at normalized
  split at normalized
  · cases normalized
  · rename_i proper
    simp only [Bool.or_eq_true, Bool.not_eq_true', not_or, Bool.not_eq_false] at proper
    obtain ⟨⟨finite, least⟩, most⟩ := proper
    split at normalized
    · rename_i narrow
      cases normalized
      rw [Number.isFinite_sub_of_narrow finite least most above below narrow]
      decide
    · rename_i wide
      cases normalized
      exact Number.isFinite_div_sub finite least most above below (Bool.eq_false_iff.2 wide)

end Infographic.Table
