/-
# Infographic.Path.Curve -- points on a curve

A segment is run through by a parameter from zero to one.  Its box is that of its ends
and of the places where it turns back in one of its coordinates.
-/
import Infographic.Geometry.Box
import Infographic.Path.Basic

namespace Infographic

set_option autoImplicit false

open Point (scale)

/-! ## Quadratic equations -/

/-- The larger of the roots of `x² + p x + q` in magnitude, if there are roots, and the
other one unless both are the same.  The larger one is computed without cancellation, and
`q` divided by it is the other.  Where the discriminant is too large to compute, `q` counts
for nothing beside `p`. -/
def monicRoots (p q : Float) : List Float :=
  let discriminant := p * p - 4.0 * q
  let both (large : Float) :=
    let small := q / large
    if small.isFinite then [large, small] else [large]
  if !discriminant.isFinite then both (-p)
  else if discriminant < 0.0 then []
  else if discriminant == 0.0 then [-0.5 * p]
  else both ((p + Number.withSign (Number.signBit p) discriminant.sqrt) * -0.5)

/-- The root of `c + b x`.  Any number is a root of zero. -/
def linearRoots (c b : Float) : List Float :=
  let root := -c / b
  if root.isFinite then [root] else if c == 0.0 && b == 0.0 then [0.0] else []

/-- The roots of `c + b x + a x²`; of a line when `a` is too small to divide by. -/
def quadraticRoots (c b a : Float) : List Float :=
  let q := c * (1.0 / a)
  let p := b * (1.0 / a)
  if q.isFinite && p.isFinite then monicRoots p q else linearRoots c b

namespace Segment

/-- The point of a quadratic curve at a parameter. -/
def quadraticPoint (p c q : Point Float) (t : Float) : Point Float :=
  let s := 1.0 - t
  scale (s * s) p + scale t (scale (s * 2.0) c + scale t q)

/-- The point of a cubic curve at a parameter. -/
def cubicPoint (p c d q : Point Float) (t : Float) : Point Float :=
  let s := 1.0 - t
  scale (s * s * s) p + scale t (scale (s * s * 3.0) c + scale t (scale (s * 3.0) d + scale t q))

/-- The point at a parameter. -/
def eval (t : Float) : Segment → Point Float
  | .line p q => p.towards q t
  | .quadratic p c q => quadraticPoint p c q t
  | .cubic p c d q => cubicPoint p c d q t

/-- Where a segment begins. -/
def start (s : Segment) : Point Float := s.eval 0.0

def stop (s : Segment) : Point Float := s.eval 1.0

/-- Where a coordinate of a quadratic curve turns back, from the two steps between its
control points. -/
def quadraticTurns (first second : Float) : List Float :=
  let change := second - first
  if change == 0.0 then [] else [-first / change]

/-- Where a coordinate of a cubic curve turns back, from the three steps between its
control points. -/
def cubicTurns (first second third : Float) : List Float :=
  quadraticRoots first (2.0 * (second - first)) (first - 2.0 * second + third)

/-- The parameters inside the segment where it turns back. -/
def turns (s : Segment) : List Float :=
  let all := match s with
    | .line _ _ => []
    | .quadratic p c q =>
        quadraticTurns (c.x - p.x) (q.x - c.x) ++ quadraticTurns (c.y - p.y) (q.y - c.y)
    | .cubic p c d q =>
        cubicTurns (c.x - p.x) (d.x - c.x) (q.x - d.x) ++
          cubicTurns (c.y - p.y) (d.y - c.y) (q.y - d.y)
  all.filter fun t => 0.0 < t && t < 1.0

/-- The ends of a segment and the points where it turns back. -/
def landmarks (s : Segment) : List (Point Float) :=
  s.start :: s.stop :: s.turns.map fun t => s.eval t

end Segment

/-- The box of a path.  A path that draws nothing has the box of nothing, and one without
elements has none. -/
def Path.box? (path : Path) : Option (Box Float) :=
  if path.isEmpty then none
  else some ((Box.ofPoints? (path.segments.flatMap Segment.landmarks)).getD .zero)

end Infographic
