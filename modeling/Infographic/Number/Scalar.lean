/-
# Infographic.Number.Scalar -- the numbers that geometry computes with

Boxes, matrices, easing and walks along a path are written over any type with
arithmetic and a comparison.  The program runs them on `Float`; read over an exact
type the same definitions say what they compute before any rounding.
-/
import Infographic.Number.Dyadic

namespace Infographic

set_option autoImplicit false

/-- Arithmetic and comparison.  An exact type has neither infinite numbers nor
not-a-number. -/
class Scalar (α : Type) extends Add α, Sub α, Mul α, Div α, Neg α where
  /-- A whole number. -/
  whole : Nat → α
  /-- Whether a number is below another; false when either is not a number. -/
  below : α → α → Bool
  isNaN : α → Bool
  isFinite : α → Bool

instance : Scalar Float where
  whole := Float.ofNat
  below a b := decide (a < b)
  isNaN := Float.isNaN
  isFinite := Float.isFinite

namespace Scalar

variable {α : Type} [Scalar α]

/-- The smaller of two numbers; not-a-number gives way. -/
def lesser (a b : α) : α :=
  if isNaN a then b else if below b a then b else a

/-- The larger of two numbers; not-a-number gives way. -/
def greater (a b : α) : α :=
  if isNaN a then b else if below a b then b else a

/-- Restrict a number to `0 .. 1`; not-a-number stays. -/
def clampUnit (x : α) : α :=
  if below x (whole 0) then whole 0 else if below (whole 1) x then whole 1 else x

end Scalar

end Infographic
