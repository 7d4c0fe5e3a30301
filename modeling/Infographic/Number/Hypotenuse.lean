/-
# Infographic.Number.Hypotenuse -- the root of a sum of two squares

The plain root of the sum of squares is off by what was rounded away in the squares.
`corrected` measures that error, as a difference in which the large parts cancel, and
takes it away.  Very large and very small sides are scaled by a power of two so that no
square leaves the range of floats.
-/
import Infographic.Number.Scalar

namespace Infographic.Number

set_option autoImplicit false

/-- The hypotenuse over a longer and a shorter side, with a corrected last digit. -/
def corrected (long short : Float) : Float :=
  let h := (long * long + short * short).sqrt
  let surplus :=
    if h ≤ 2.0 * short then
      let excess := h - short
      long * (2.0 * excess - long) + (excess - 2.0 * (long - short)) * excess
    else
      let excess := h - long
      2.0 * excess * (long - 2.0 * short) + ((4.0 * excess - short) * short + excess * excess)
  h - surplus / (2.0 * h)

/-- The hypotenuse over a longer and a shorter side, neither of them negative.  A side too
short to change the longer one is just added. -/
def hypotenuseOver (long short : Float) : Float :=
  let grain := twoPow (-54)
  let scale := twoPow (-600)
  if short / grain ≤ long then long + short
  else if twoPow 511 < long then corrected (long * scale) (short * scale) / scale
  else if short < twoPow (-459) then corrected (long / scale) (short / scale) * scale
  else corrected long short

/-- The root of `x² + y²`. -/
def hypotenuse (x y : Float) : Float :=
  let x := x.abs
  let y := y.abs
  if x.isInf || y.isInf then infinity
  else if x < y then hypotenuseOver y x
  else hypotenuseOver x y

end Infographic.Number
