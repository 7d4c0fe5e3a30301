/-
# Infographic.Proofs.NearestFloats -- rounding to the nearest float

A number is rounded on the grid of floats around it: to the nearest multiple of a power of two, the
even one of two (`nearest`).  Rounding keeps the order of numbers (`nearest_mono`), leaves what is on
the grid (`nearest_eq_self`) and moves nothing by more than half a step (`abs_nearest_sub_le`).  What
the arithmetic of floats does to a mantissa with a round bit and a sticky bit is this rounding
(`isNearest_roundWithAccuracy`).
-/
import Mathlib.Algebra.Order.Floor.Ring
import Mathlib.Algebra.Order.Round
import Mathlib.Data.Int.Log
import Mathlib.Data.Rat.Floor
import Mathlib.Tactic.FieldSimp
import Mathlib.Tactic.Linarith
import Mathlib.Tactic.NormNum
import Mathlib.Tactic.Positivity
import Mathlib.Tactic.Ring
import Infographic.Proofs.FloatOrder

namespace Infographic.Number

set_option autoImplicit false

open Float.Model (Format UnpackedFloat totalExponent)
open Float.Model.UnpackedFloat

/-! ## The nearest integer -/

/-- The nearest integer, of two the even one. -/
def halfEven (q : ℚ) : ℤ :=
  if 1 / 2 < Int.fract q ∨ Int.fract q = 1 / 2 ∧ ⌊q⌋ % 2 = 1 then ⌊q⌋ + 1 else ⌊q⌋

variable {q r : ℚ} {n : ℤ}

theorem halfEven_mem (q : ℚ) : ⌊q⌋ ≤ halfEven q ∧ halfEven q ≤ ⌊q⌋ + 1 := by
  unfold halfEven
  split <;> omega

theorem halfEven_intCast (n : ℤ) : halfEven n = n := by
  rw [halfEven, Int.fract_intCast, Int.floor_intCast, if_neg (by norm_num)]

theorem le_halfEven (above : (n : ℚ) ≤ q) : n ≤ halfEven q :=
  (Int.le_floor.2 above).trans (halfEven_mem q).1

theorem halfEven_le (below : q ≤ n) : halfEven q ≤ n := by
  rcases below.eq_or_lt with rfl | less
  · rw [halfEven_intCast]
  · have first : ⌊q⌋ < n := Int.floor_lt.2 less
    exact (halfEven_mem q).2.trans first

theorem halfEven_mono (order : q ≤ r) : halfEven q ≤ halfEven r := by
  rcases (Int.floor_le_floor order).lt_or_eq with below | same
  · exact (halfEven_mem q).2.trans (Int.add_one_le_iff.2 below |>.trans (halfEven_mem r).1)
  · have rest : Int.fract q ≤ Int.fract r := by
      rw [Int.fract, Int.fract, same]
      exact sub_le_sub_right order _
    unfold halfEven
    rw [same]
    split
    · rename_i up
      rw [if_pos]
      rcases up with up | ⟨half, odd⟩
      · exact .inl (up.trans_le rest)
      · rcases rest.lt_or_eq with more | equal
        · exact .inl (half ▸ more)
        · exact .inr ⟨equal ▸ half, odd⟩
    · split <;> omega

theorem abs_halfEven_sub_le (q : ℚ) : |(halfEven q : ℚ) - q| ≤ 1 / 2 := by
  have split_off : (⌊q⌋ : ℚ) = q - Int.fract q := (Int.self_sub_fract q).symm
  have low := Int.fract_nonneg q
  unfold halfEven
  split
  · rename_i up
    have half : 1 / 2 ≤ Int.fract q := up.elim (·.le) (·.1.ge)
    have less := Int.fract_lt_one q
    rw [Int.cast_add, Int.cast_one, split_off, abs_le]
    constructor <;> linarith
  · rename_i down
    have half : Int.fract q ≤ 1 / 2 := le_of_not_gt fun more => down (.inl more)
    rw [split_off, abs_le]
    constructor <;> linarith

/-! ## Bits behind a mantissa -/

/-- A mantissa with its bits stands for a number: the round bit says whether half or more is left
over, the sticky bit whether that is neither nothing nor a half. -/
structure Holds (em : ExtendedMantissa) (q : ℚ) : Prop where
  floor : ⌊q⌋ = em.mantissa
  half : em.roundBit = true ↔ 1 / 2 ≤ Int.fract q
  between : em.stickyBit = true ↔ Int.fract q ≠ 0 ∧ Int.fract q ≠ 1 / 2

theorem holds_natCast (m : ℕ) : Holds (.ofMantissaAndAccuracy m .exact) m where
  floor := Int.floor_natCast m
  half := iff_of_false Bool.false_ne_true (by rw [Int.fract_natCast]; norm_num)
  between := iff_of_false Bool.false_ne_true fun both => both.1 (Int.fract_natCast m)

theorem fract_div_two (m : ℕ) (floor : ⌊q⌋ = m) :
    ⌊q / 2⌋ = (m / 2 : ℕ) ∧ Int.fract (q / 2) = ((m % 2 : ℕ) + Int.fract q) / 2 := by
  have whole : q = m + Int.fract q := by
    rw [← Int.cast_natCast, ← floor, Int.floor_add_fract]
  have parts : (m : ℚ) = 2 * (m / 2 : ℕ) + (m % 2 : ℕ) := by
    exact_mod_cast (Nat.div_add_mod m 2).symm
  have bit : ((m % 2 : ℕ) : ℚ) ≤ 1 := by
    exact_mod_cast Nat.le_of_lt_succ (Nat.mod_lt m Nat.two_pos)
  have low := Int.fract_nonneg q
  have high := Int.fract_lt_one q
  have least : (0 : ℚ) ≤ (m % 2 : ℕ) := Nat.cast_nonneg _
  have first : ⌊q / 2⌋ = ((m / 2 : ℕ) : ℤ) := by
    rw [Int.floor_eq_iff, Int.cast_natCast]
    constructor <;> linarith
  refine ⟨first, ?_⟩
  rw [Int.fract, first, Int.cast_natCast]
  linarith

theorem Holds.shiftRightOne {em : ExtendedMantissa} (holds : Holds em q) :
    Holds em.shiftRightOne (q / 2) := by
  obtain ⟨floor, rest⟩ := fract_div_two em.mantissa holds.floor
  have low := Int.fract_nonneg q
  have high := Int.fract_lt_one q
  have odd : em.shiftRightOne.roundBit = true ↔ em.mantissa % 2 = 1 := by
    change (em.mantissa % 2 != 0) = true ↔ _
    rw [bne_iff_ne]
    omega
  have left : em.shiftRightOne.stickyBit = true ↔ Int.fract q ≠ 0 := by
    change (em.roundBit || em.stickyBit) = true ↔ _
    rw [Bool.or_eq_true, holds.half, holds.between]
    constructor
    · rintro (more | both)
      · linarith
      · exact both.1
    · intro nonzero
      by_cases half : Int.fract q = 1 / 2
      · exact .inl half.ge
      · exact .inr ⟨nonzero, half⟩
  refine ⟨floor, ?_, ?_⟩
  · rw [odd, rest]
    rcases Nat.mod_two_eq_zero_or_one em.mantissa with bit | bit <;> rw [bit]
    · refine iff_of_false Nat.zero_ne_one (not_le.2 ?_)
      norm_num
      linarith
    · refine iff_of_true rfl ?_
      norm_num
      linarith
  · rw [left, rest]
    rcases Nat.mod_two_eq_zero_or_one em.mantissa with bit | bit <;> rw [bit] <;>
      norm_num <;> intro _
    · linarith
    · linarith

theorem Holds.shiftRight {em : ExtendedMantissa} (holds : Holds em q) (k : ℕ) :
    Holds (em >>> k) (q / 2 ^ k) := by
  induction k with
  | zero => rwa [pow_zero, div_one]
  | succ k ih =>
      have next := ih.shiftRightOne
      rwa [div_div, ← pow_succ] at next

/-- **The bits are enough to round.** -/
theorem Holds.roundedMantissa {em : ExtendedMantissa} (holds : Holds em q) :
    (em.roundedMantissa : ℤ) = halfEven q := by
  obtain ⟨m, round, sticky⟩ := em
  obtain ⟨floor, half, between⟩ := holds
  dsimp only at floor half between
  unfold halfEven
  rw [floor]
  cases round <;> cases sticky <;>
    simp only [ExtendedMantissa.roundedMantissa, ExtendedMantissa.accuracy,
      Accuracy.roundToNearestEven, Bool.false_eq_true, false_iff, true_iff, not_le, not_and_or,
      not_not] at half between ⊢
  · rw [if_neg]
    rintro (more | ⟨equal, -⟩) <;> linarith
  · rw [if_neg]
    rintro (more | ⟨equal, -⟩) <;> linarith
  · have equal : Int.fract q = 1 / 2 := between.resolve_left (by linarith)
    rw [equal]
    split <;> rename_i up <;> simp at up <;> omega
  · rw [if_pos (.inl (lt_of_le_of_ne half (Ne.symm between.2)))]
    rfl

/-! ## The grid of floats -/

/-- The exponent of the step between the floats around a number. -/
def grid (v : ℚ) : ℤ := max (Int.log 2 v - 52) (-1074)

/-- The nearest multiple of the step, of two the even one. -/
def nearest (v : ℚ) : ℚ := halfEven (v / 2 ^ grid v) * 2 ^ grid v

variable {v w : ℚ} {m : ℕ} {e : ℤ}

theorem step_pos (e : ℤ) : (0 : ℚ) < 2 ^ e := zpow_pos (by norm_num) e

/-- A power of two is a multiple of every smaller one. -/
theorem exists_mul_step {e f : ℤ} (order : f ≤ e) : ∃ k : ℤ, (2 : ℚ) ^ e = k * 2 ^ f := by
  refine ⟨2 ^ (e - f).toNat, ?_⟩
  rw [Int.cast_pow, Int.cast_ofNat, ← zpow_natCast, ← zpow_add₀ (by norm_num)]
  congr 1
  omega

theorem nearest_le {k : ℤ} (below : v ≤ k * 2 ^ grid v) : nearest v ≤ k * 2 ^ grid v := by
  have most := halfEven_le ((div_le_iff₀ (step_pos _)).2 below)
  exact mul_le_mul_of_nonneg_right (Int.cast_le.2 most) (step_pos _).le

theorem le_nearest {k : ℤ} (above : k * 2 ^ grid v ≤ v) : k * 2 ^ grid v ≤ nearest v := by
  have least := le_halfEven ((le_div_iff₀ (step_pos _)).2 above)
  exact mul_le_mul_of_nonneg_right (Int.cast_le.2 least) (step_pos _).le

theorem nearest_of_multiple {k : ℤ} (multiple : v = k * 2 ^ grid v) : nearest v = v :=
  le_antisymm ((nearest_le multiple.le).trans_eq multiple.symm)
    (multiple.trans_le (le_nearest multiple.ge))

theorem nearest_zero : nearest 0 = 0 := by
  rw [nearest, zero_div, ← Int.cast_zero, halfEven_intCast, Int.cast_zero, zero_mul]

theorem nearest_nonneg (positive : 0 ≤ v) : 0 ≤ nearest v := by
  have least := le_nearest (v := v) (k := 0) (by rwa [Int.cast_zero, zero_mul])
  rwa [Int.cast_zero, zero_mul] at least

/-- Larger numbers lie on a grid that is no finer. -/
theorem grid_mono (positive : 0 < v) (order : v ≤ w) : grid v ≤ grid w :=
  max_le_max_right _ (sub_le_sub_right (Int.log_mono_right positive order) _)

/-- **Rounding keeps the order.** -/
theorem nearest_mono (positive : 0 ≤ v) (order : v ≤ w) : nearest v ≤ nearest w := by
  rcases positive.eq_or_lt with rfl | positive
  · rw [nearest_zero]
    exact nearest_nonneg order
  rcases (grid_mono positive order).lt_or_eq with finer | same
  · -- between numbers on different grids there is a power of two that is on both
    have log : grid w = Int.log 2 w - 52 := by
      have least : (-1074 : ℤ) ≤ grid v := le_max_right _ _
      unfold grid at finer least ⊢
      omega
    have apart : Int.log 2 v + 1 ≤ Int.log 2 w := by
      have least : Int.log 2 v - 52 ≤ grid v := le_max_left _ _
      omega
    obtain ⟨i, low⟩ := exists_mul_step (e := Int.log 2 w) (f := grid v) (by omega)
    obtain ⟨j, high⟩ := exists_mul_step (e := Int.log 2 w) (f := grid w) (by omega)
    have below : v ≤ (2 : ℚ) ^ Int.log 2 w :=
      (Int.lt_zpow_succ_log_self (by norm_num) v).le.trans
        (zpow_le_zpow_right₀ (by norm_num) apart)
    have above : (2 : ℚ) ^ Int.log 2 w ≤ w :=
      Int.zpow_log_le_self (by norm_num) (positive.trans_le order)
    calc nearest v ≤ 2 ^ Int.log 2 w := low ▸ nearest_le (low ▸ below)
      _ ≤ nearest w := high ▸ le_nearest (high ▸ above)
  · unfold nearest
    rw [same]
    refine mul_le_mul_of_nonneg_right (Int.cast_le.2 (halfEven_mono ?_)) (step_pos _).le
    exact div_le_div_of_nonneg_right order (step_pos _).le

/-- The grid below a power of two. -/
theorem grid_le {e : ℤ} (positive : 0 < v) (below : v < 2 ^ (e + 53)) (least : -1074 ≤ e) :
    grid v ≤ e := by
  have log : Int.log 2 v < e + 53 := by
    refine (zpow_lt_zpow_iff_right₀ (a := (2 : ℚ)) (by norm_num)).1 ?_
    exact lt_of_le_of_lt (Int.zpow_log_le_self (by norm_num) positive) below
  unfold grid
  omega

/-- **What is on the grid stays.** -/
theorem nearest_eq_self (small : m < 2 ^ 53) (least : -1074 ≤ e) :
    nearest (m * 2 ^ e) = m * 2 ^ e := by
  rcases Nat.eq_zero_or_pos m with rfl | positive
  · rw [Nat.cast_zero, zero_mul, nearest_zero]
  have fine : grid (m * 2 ^ e) ≤ e := by
    refine grid_le (mul_pos (Nat.cast_pos.2 positive) (step_pos e)) ?_ least
    rw [add_comm, zpow_add₀ (by norm_num)]
    exact mul_lt_mul_of_pos_right (by exact_mod_cast small) (step_pos e)
  obtain ⟨k, multiple⟩ := exists_mul_step fine
  refine nearest_of_multiple (k := m * k) ?_
  rw [Int.cast_mul, Int.cast_natCast, mul_assoc, ← multiple]

/-- **Nothing moves by more than half a step.** -/
theorem abs_nearest_sub_le (v : ℚ) : |nearest v - v| ≤ 2 ^ grid v / 2 := by
  have near := abs_halfEven_sub_le (v / 2 ^ grid v)
  have scaled : nearest v - v = (halfEven (v / 2 ^ grid v) - v / 2 ^ grid v) * 2 ^ grid v := by
    rw [sub_mul, div_mul_cancel₀ _ (step_pos _).ne']
    rfl
  calc |nearest v - v| = |(halfEven (v / 2 ^ grid v) - v / 2 ^ grid v : ℚ)| * 2 ^ grid v := by
        rw [scaled, abs_mul, abs_of_pos (step_pos _)]
    _ ≤ 1 / 2 * 2 ^ grid v := mul_le_mul_of_nonneg_right near (step_pos _).le
    _ = 2 ^ grid v / 2 := one_div_mul_eq_div _ _

/-! ## Rounding a mantissa -/

theorem pow_log2_le (nonzero : m ≠ 0) : (2 : ℚ) ^ (m.log2 : ℤ) ≤ m := by
  rw [zpow_natCast]
  exact_mod_cast Nat.log2_self_le nonzero

theorem lt_pow_log2 (m : ℕ) : (m : ℚ) + 1 ≤ 2 ^ (m.log2 + 1 : ℤ) := by
  have above : m + 1 ≤ 2 ^ (m.log2 + 1) := Nat.lt_log2_self
  have same : (2 : ℚ) ^ (m.log2 + 1 : ℤ) = (2 ^ (m.log2 + 1) : ℕ) := by
    rw [Nat.cast_pow, ← zpow_natCast, Nat.cast_ofNat, Nat.cast_add, Nat.cast_one]
  rw [same]
  exact_mod_cast above

/-- The place of a number is that of its whole part. -/
theorem log_mul_step (floor : ⌊q⌋ = m) (nonzero : m ≠ 0) (e : ℤ) :
    Int.log 2 (q * 2 ^ e) = m.log2 + e := by
  have low : (m : ℚ) ≤ q := by
    rw [← Int.cast_natCast, ← floor]
    exact Int.floor_le q
  have high : q < m + 1 := by
    rw [← Int.cast_natCast, ← floor]
    exact Int.lt_floor_add_one q
  have positive : 0 < q := (Nat.cast_pos.2 (Nat.pos_of_ne_zero nonzero)).trans_le low
  have least : (2 : ℚ) ^ (m.log2 + e : ℤ) ≤ q * 2 ^ e := by
    rw [zpow_add₀ (by norm_num)]
    exact mul_le_mul_of_nonneg_right ((pow_log2_le nonzero).trans low) (step_pos e).le
  have most : q * 2 ^ e < 2 ^ (m.log2 + e + 1 : ℤ) := by
    rw [add_right_comm, zpow_add₀ (by norm_num)]
    exact mul_lt_mul_of_pos_right (high.trans_le (lt_pow_log2 m)) (step_pos e)
  have above := (Int.zpow_log_le_self (b := 2) (by norm_num) (mul_pos positive (step_pos e)))
  have below := Int.lt_zpow_succ_log_self (b := 2) (by norm_num) (q * 2 ^ e)
  have first := (zpow_lt_zpow_iff_right₀ (a := (2 : ℚ)) (by norm_num)).1 (above.trans_lt most)
  have second := (zpow_lt_zpow_iff_right₀ (a := (2 : ℚ)) (by norm_num)).1 (least.trans_lt below)
  omega

/-- A mantissa is shifted to the grid around its number. -/
theorem add_shiftOf (floor : ⌊q⌋ = m) (positive : 0 < q) (normal : 2 ^ 52 ≤ m ∨ e ≤ -1074) :
    e + shiftOf m e = grid (q * 2 ^ e) := by
  rw [shiftOf, targetExponent_eq, totalExponent_eq]
  rcases eq_or_ne m 0 with rfl | nonzero
  · have small : q * 2 ^ e < 2 ^ e := by
      rw [Nat.cast_zero, Int.floor_eq_zero_iff] at floor
      exact mul_lt_of_lt_one_left (step_pos e) floor.2
    have above := (Int.zpow_log_le_self (b := 2) (by norm_num) (mul_pos positive (step_pos e)))
    have log := (zpow_lt_zpow_iff_right₀ (a := (2 : ℚ)) (by norm_num)).1 (above.trans_lt small)
    have none : (0 : ℕ).log2 = 0 := rfl
    rw [none]
    unfold grid
    omega
  · have digits : 52 ≤ m.log2 ∨ e ≤ -1074 := normal.imp_left (Nat.le_log2 nonzero).2
    rw [grid, log_mul_step floor nonzero]
    omega

/-- A finite number as a fraction. -/
def rat (u : UnpackedFloat) : ℚ := units u / 2 ^ 1074

theorem rat_finite (h : 0 < m) (least : -1074 ≤ e) :
    rat (.finite .positive m e h) = m * 2 ^ e := by
  have exponent : (2 : ℚ) ^ (e + 1074).toNat = 2 ^ e * 2 ^ 1074 := by
    rw [← zpow_natCast, ← zpow_natCast, ← zpow_add₀ (by norm_num)]
    congr 1
    omega
  change ((size m e : ℤ) : ℚ) / 2 ^ 1074 = _
  rw [size, Int.cast_natCast, Nat.cast_mul, Nat.cast_pow, Nat.cast_ofNat, exponent, ← mul_assoc,
    mul_div_cancel_right₀ _ (by positivity)]

/-- A number as it is stored, unless it is too large for that, is the nearest one. -/
structure IsNearest (u : UnpackedFloat) (v : ℚ) : Prop where
  stored : Stored u
  rat : rat u = nearest v

theorem isNearest_zero (sign : Sign) : IsNearest (.zero sign) 0 :=
  ⟨trivial, by rw [nearest_zero, rat]; exact zero_div _⟩

/-- A rounded mantissa, shifted once more. -/
def shiftedBy (k r : ℕ) (e : ℤ) : UnpackedFloat :=
  if h : r / 2 ^ k = 0 then .zero .positive
  else .finite .positive (r / 2 ^ k) (e + k) (Nat.pos_of_ne_zero h)

/-- A rounded mantissa in the format, where only a carry makes it shift. -/
def carried (r : ℕ) (e : ℤ) : UnpackedFloat := shiftedBy (shiftOf r e) r e

theorem roundWithAccuracy_eq_carried {accuracy : Accuracy}
    (holds : Holds (.ofMantissaAndAccuracy m accuracy) q) :
    ∃ r : ℕ, (r : ℤ) = halfEven (q / 2 ^ shiftOf m e) ∧
      roundWithAccuracy Format.binary64 .positive m e accuracy = carried r (e + shiftOf m e) := by
  let em := ExtendedMantissa.ofMantissaAndAccuracy m accuracy >>> shiftOf m e
  refine ⟨em.roundedMantissa, (holds.shiftRight (shiftOf m e)).roundedMantissa, ?_⟩
  have first : shiftToTargetExponent Format.binary64 m e accuracy = (em, e + shiftOf m e) := rfl
  obtain ⟨last, mantissa, second⟩ :=
    shiftToTargetExponent_eq em.roundedMantissa (e + shiftOf m e) .exact
  unfold roundWithAccuracy carried shiftedBy
  rw [first]
  dsimp only
  rw [second]
  dsimp only
  rw [mantissa]

theorem shiftedBy_eq {k r : ℕ} {f : ℤ} (mantissa : r / 2 ^ k = m) (exponent : e + k = f)
    (positive : 0 < m) : shiftedBy k r e = .finite .positive m f positive := by
  subst mantissa exponent
  exact dif_neg positive.ne'

/-- A carry keeps the number and brings it into the form in which it is stored. -/
theorem carried_spec {r : ℕ} (most : r ≤ 2 ^ 53) (least : -1074 ≤ e)
    (normal : 2 ^ 52 ≤ r ∨ e = -1074) :
    Stored (carried r e) ∧ rat (carried r e) = r * 2 ^ e := by
  have shift : shiftOf r e = r.log2 - 52 := by
    rw [shiftOf, targetExponent_eq, totalExponent_eq]
    omega
  rw [carried, shift]
  rcases most.lt_or_eq with small | rfl
  · rcases Nat.eq_zero_or_pos r with rfl | positive
    · rw [shiftedBy, dif_pos (Nat.zero_div _), Nat.cast_zero, zero_mul]
      exact ⟨trivial, zero_div _⟩
    · have none : r.log2 - 52 = 0 := by
        have digits : r.log2 < 53 := (Nat.log2_lt positive.ne').2 small
        omega
      rw [none, shiftedBy_eq (by rw [pow_zero, Nat.div_one]) (Int.add_zero e) positive]
      exact ⟨⟨positive.ne', small, least, normal⟩, rat_finite positive least⟩
  · have one : (2 ^ 53).log2 - 52 = 1 := by rw [Nat.log2_two_pow]
    have half : 2 ^ 53 / 2 ^ 1 = 2 ^ 52 := by norm_num
    have least' : -1074 ≤ e + (1 : ℕ) := by omega
    rw [one, shiftedBy_eq half rfl (by norm_num)]
    refine ⟨⟨by norm_num, by norm_num, least', .inl (Nat.le_refl _)⟩, ?_⟩
    rw [rat_finite _ least', zpow_add₀ (by norm_num)]
    norm_num
    ring

/-- **The arithmetic of floats rounds to the nearest.** -/
theorem isNearest_roundWithAccuracy {accuracy : Accuracy}
    (holds : Holds (.ofMantissaAndAccuracy m accuracy) q) (positive : 0 ≤ q)
    (normal : 2 ^ 52 ≤ m ∨ e ≤ -1074) :
    IsNearest (roundWithAccuracy Format.binary64 .positive m e accuracy) (q * 2 ^ e) := by
  have floor : ⌊q⌋ = m := by
    rw [holds.floor, mantissa_ofMantissaAndAccuracy]
  obtain ⟨r, whole, made⟩ := roundWithAccuracy_eq_carried (e := e) holds
  rw [made]
  rcases positive.eq_or_lt with rfl | positive
  · rw [zero_div, ← Int.cast_zero, halfEven_intCast] at whole
    rw [Int.natCast_eq_zero.1 whole, carried, shiftedBy, dif_pos (Nat.zero_div _), zero_mul]
    exact isNearest_zero _
  have shifted := add_shiftOf floor positive normal
  have scaled : q / 2 ^ shiftOf m e = q * 2 ^ e / 2 ^ grid (q * 2 ^ e) := by
    rw [← shifted, zpow_add₀ (by norm_num), zpow_natCast, mul_comm q, mul_div_mul_left _ _ (step_pos e).ne']
  rw [scaled] at whole
  rw [shifted]
  have above := mul_pos positive (step_pos e)
  generalize q * 2 ^ e = v at above whole
  have least : -1074 ≤ grid v := le_max_right _ _
  have most : (r : ℤ) ≤ 2 ^ 53 := by
    rw [whole]
    refine halfEven_le ?_
    rw [div_le_iff₀ (step_pos _), Int.cast_pow, Int.cast_ofNat, ← zpow_natCast,
      ← zpow_add₀ (by norm_num)]
    refine (Int.lt_zpow_succ_log_self (b := 2) (by norm_num) v).le.trans
      (zpow_le_zpow_right₀ (by norm_num) ?_)
    unfold grid
    omega
  have normal : (2 ^ 52 : ℤ) ≤ r ∨ grid v = -1074 := by
    by_cases subnormal : grid v = -1074
    · exact .inr subnormal
    · refine .inl ?_
      rw [whole]
      refine le_halfEven ?_
      rw [le_div_iff₀ (step_pos _), Int.cast_pow, Int.cast_ofNat, ← zpow_natCast,
        ← zpow_add₀ (by norm_num)]
      refine (zpow_le_zpow_right₀ (by norm_num) ?_).trans
        (Int.zpow_log_le_self (b := 2) (by norm_num) above)
      unfold grid at subnormal ⊢
      omega
  obtain ⟨stored, same⟩ := carried_spec (r := r) (by exact_mod_cast most) least
    (normal.imp_left fun large => by exact_mod_cast large)
  refine ⟨stored, ?_⟩
  rw [same, nearest, ← whole, Int.cast_natCast]

end Infographic.Number
