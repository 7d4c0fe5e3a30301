/-
# Infographic.Proofs.ExactScalar -- arithmetic without rounding

What is written over any type with arithmetic and a comparison can be read over an ordered field:
there nothing is rounded, every number is finite and nothing is not-a-number.  `Scalar.exact` is
that reading.  It is made an instance where it is used, so that a field has its own operations
elsewhere.
-/
import Mathlib.Algebra.Order.Field.Basic
import Infographic.Number.Scalar

namespace Infographic.Scalar

set_option autoImplicit false

/-- The arithmetic and the order of a field. -/
abbrev exact (K : Type) [Field K] [LinearOrder K] : Scalar K where
  whole n := n
  below a b := decide (a < b)
  isNaN _ := false
  isFinite _ := true

section

variable {K : Type} [Field K] [LinearOrder K] [IsStrictOrderedRing K]

attribute [local instance] Scalar.exact

omit [IsStrictOrderedRing K] in
theorem below_exact (a b : K) : below a b = true ↔ a < b :=
  decide_eq_true_iff

omit [IsStrictOrderedRing K] in
theorem lesser_exact (a b : K) : lesser a b = min b a := by
  show (if below b a then b else a) = min b a
  simp only [below_exact, min_def_lt]

omit [IsStrictOrderedRing K] in
theorem greater_exact (a b : K) : greater a b = max a b := by
  show (if below a b then b else a) = max a b
  simp only [below_exact, max_def_lt]

theorem clampUnit_exact (x : K) : clampUnit x = max 0 (min 1 x) := by
  have zero : (whole 0 : K) = 0 := Nat.cast_zero
  have one : (whole 1 : K) = 1 := Nat.cast_one
  rw [clampUnit, zero, one]
  simp only [below_exact]
  split
  · rename_i negative
    rw [max_eq_left (le_trans (min_le_right 1 x) negative.le)]
  · rename_i positive
    split
    · rename_i large
      rw [min_eq_left large.le, max_eq_right zero_le_one]
    · rename_i small
      rw [min_eq_right (not_lt.1 small), max_eq_right (not_lt.1 positive)]

theorem clampUnit_mem (x : K) : 0 ≤ clampUnit x ∧ clampUnit x ≤ 1 := by
  rw [clampUnit_exact]
  exact ⟨le_max_left _ _, max_le zero_le_one (min_le_left _ _)⟩

theorem clampUnit_mono {x y : K} (le : x ≤ y) : clampUnit x ≤ clampUnit y := by
  rw [clampUnit_exact, clampUnit_exact]
  exact max_le_max_left 0 (min_le_min_left 1 le)

theorem clampUnit_of_nonpos {x : K} (le : x ≤ 0) : clampUnit x = 0 := by
  rw [clampUnit_exact, max_eq_left (le_trans (min_le_right 1 x) le)]

theorem clampUnit_of_one_le {x : K} (le : 1 ≤ x) : clampUnit x = 1 := by
  rw [clampUnit_exact, min_eq_left le, max_eq_right zero_le_one]

theorem clampUnit_clampUnit (x : K) : clampUnit (clampUnit x) = clampUnit x := by
  obtain ⟨low, high⟩ := clampUnit_mem x
  rw [clampUnit_exact (clampUnit x), min_eq_right high, max_eq_right low]

theorem clampUnit_lt_one {x : K} : clampUnit x < 1 ↔ x < 1 := by
  rw [clampUnit_exact, max_lt_iff, min_lt_iff]
  simp

end

end Infographic.Scalar
