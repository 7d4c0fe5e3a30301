/-
# Infographic.Path.Arc -- elliptic arcs

An arc between two points is given by the radii of its ellipse, the turn of the first
radius, and which of four arcs is meant.  `Arc.between?` finds the centre and the
angles; radii too small to reach are made larger.  `Arc.cubics` follows an arc with
cubic curves, as many as a tolerance asks for.
-/
import Infographic.Geometry.Point

namespace Infographic

set_option autoImplicit false

open Infographic.Number (pi remainderBy)

/-- An arc of an ellipse, angles in radians. -/
structure Arc where
  centre : Point Float
  radii : Point Float
  /-- The angle of the first radius. -/
  turn : Float
  start : Float
  sweep : Float

namespace Arc

/-- A turn of a point about the origin. -/
def turned (angle : Float) (p : Point Float) : Point Float :=
  ⟨p.x * angle.cos - p.y * angle.sin, p.x * angle.sin + p.y * angle.cos⟩

/-- The point at an angle of an ellipse, seen from its centre. -/
def sample (radii : Point Float) (turn angle : Float) : Point Float :=
  turned turn ⟨radii.x * angle.cos, radii.y * angle.sin⟩

/-- An angle turned on by a whole circle where that gives the sweep its direction. -/
def directed (sweep : Bool) (angle : Float) : Float :=
  if sweep ∧ angle < 0.0 then angle + 2.0 * pi
  else if !sweep ∧ 0.0 < angle then angle - 2.0 * pi
  else angle

/-- The arc from one point to another.  There is none when the points are the same or a
radius is nearly zero. -/
def between? (p q radii : Point Float) (turn : Float) (large sweep : Bool) : Option Arc :=
  if radii.x.abs ≤ 1e-5 ∨ radii.y.abs ≤ 1e-5 ∨ p == q then none
  else
    let angle := remainderBy turn (2.0 * pi)
    let sin := angle.sin
    let cos := angle.cos
    let half : Point Float := ⟨(p.x - q.x) * 0.5, (p.y - q.y) * 0.5⟩
    let middle : Point Float := ⟨(p.x + q.x) * 0.5, (p.y + q.y) * 0.5⟩
    -- half the way back, along the radii
    let u : Point Float := ⟨cos * half.x + sin * half.y, -sin * half.x + cos * half.y⟩
    let short := u.x * u.x / (radii.x.abs * radii.x.abs) +
      u.y * u.y / (radii.y.abs * radii.y.abs)
    let scale := if 1.0 < short then short.sqrt else 1.0
    let rx := radii.x.abs * scale
    let ry := radii.y.abs * scale
    let area := rx * ry
    let v : Point Float := ⟨rx * u.y, ry * u.x⟩
    let squares := v.x * v.x + v.y * v.y
    let side := if large = sweep then -1.0 else 1.0
    let distance := side * ((area * area - squares) / squares).abs.sqrt
    -- the centre, along the radii
    let c : Point Float := ⟨distance * v.x / ry, -distance * v.y / rx⟩
    let start := Float.atan2 ((u.y - c.y) / ry) ((u.x - c.x) / rx)
    let stop := Float.atan2 ((-u.y - c.y) / ry) ((-u.x - c.x) / rx)
    some
      { centre := ⟨cos * c.x - sin * c.y + middle.x, sin * c.x + cos * c.y + middle.y⟩
        radii := ⟨rx, ry⟩
        turn
        start
        sweep := directed sweep (remainderBy (stop - start) (2.0 * pi)) }

/-- How many cubic curves keep an arc within a tolerance. -/
def cubicCount (tolerance : Float) (arc : Arc) : Float :=
  let error := Scalar.greater arc.radii.x arc.radii.y / tolerance
  let whole := Scalar.greater ((1.1163 * error).pow (1.0 / 6.0)) 3.999999
  Number.ceil (whole * arc.sweep.abs * (1.0 / (2.0 * pi)))

/-- Cubic curves of equal sweep, from an angle on: for each the two control points and
the end.  An arm leads from an end point along the direction of the arc there. -/
def cubicsFrom (arc : Arc) (arm step : Float) :
    Nat → Float → Point Float → List (Point Float × Point Float × Point Float)
  | 0, _, _ => []
  | count + 1, angle, p =>
      let ahead (angle : Float) := Point.scale arm (sample arc.radii arc.turn (angle + pi / 2.0))
      let next := angle + step
      let q := sample arc.radii arc.turn next
      (arc.centre + (p + ahead angle), arc.centre + (q - ahead next), arc.centre + q) ::
        cubicsFrom arc arm step count next q

/-- The point where an arc begins. -/
def first (arc : Arc) : Point Float :=
  arc.centre + sample arc.radii arc.turn arc.start

/-- The cubic curves that follow an arc within a tolerance. -/
def cubics (tolerance : Float) (arc : Arc) : List (Point Float × Point Float × Point Float) :=
  let count := cubicCount tolerance arc
  let step := arc.sweep / count
  let arm := 4.0 / 3.0 * (0.25 * step).abs.tan * (if arc.sweep < 0.0 then -1.0 else 1.0)
  cubicsFrom arc arm step (Number.toNat count) arc.start (sample arc.radii arc.turn arc.start)

/-- The whole of an ellipse.  The arc starts on its longer radius, which points along an
axis: to the right, or down if the second radius is the longer one. -/
def ellipse (centre radii : Point Float) : Arc :=
  let a := radii.x * radii.x
  let b := radii.y * radii.y
  let difference := ((a - b) * (a - b)).sqrt
  { centre
    radii := ⟨(0.5 * (a + b + difference)).sqrt, (0.5 * (a + b - difference)).sqrt⟩
    turn := 0.5 * Float.atan2 0.0 (a - b)
    start := 0.0
    sweep := 2.0 * pi }

end Arc

end Infographic
