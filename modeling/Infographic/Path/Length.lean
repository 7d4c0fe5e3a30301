/-
# Infographic.Path.Length -- the length of a curve

The length of a line is known exactly, that of a quadratic curve by a formula, and that
of a cubic curve by quadrature: the speed of the curve is summed at some nodes, with
more nodes or on both halves of the curve where an estimate of the error asks for it.
The parameter at a given length is found by narrowing a bracket.
-/
import Infographic.Path.Curve

namespace Infographic

set_option autoImplicit false

open Infographic.Number (power)
open Point (scale)

/-- The error a length may have. -/
def lengthTolerance : Float := 1e-4

/-! ## Quadrature -/

/-- Weights and nodes on `-1 .. 1`; each node stands for its negative too. -/
abbrev Nodes := List (Float × Float)

def nodes8 : Nodes :=
  [(0.3626837833783620, 0.1834346424956498), (0.3137066458778873, 0.5255324099163290),
   (0.2223810344533745, 0.7966664774136267), (0.1012285362903763, 0.9602898564975363)]

def nodes16 : Nodes :=
  [(0.1894506104550685, 0.0950125098376374), (0.1826034150449236, 0.2816035507792589),
   (0.1691565193950025, 0.4580167776572274), (0.1495959888165767, 0.6178762444026438),
   (0.1246289712555339, 0.7554044083550030), (0.0951585116824928, 0.8656312023878318),
   (0.0622535239386479, 0.9445750230732326), (0.0271524594117541, 0.9894009349916499)]

def nodes24 : Nodes :=
  [(0.1279381953467522, 0.0640568928626056), (0.1258374563468283, 0.1911188674736163),
   (0.1216704729278034, 0.3150426796961634), (0.1155056680537256, 0.4337935076260451),
   (0.1074442701159656, 0.5454214713888396), (0.0976186521041139, 0.6480936519369755),
   (0.0861901615319533, 0.7401241915785544), (0.0733464814110803, 0.8200019859739029),
   (0.0592985849154368, 0.8864155270044011), (0.0442774388174198, 0.9382745520027328),
   (0.0285313886289337, 0.9747285559713095), (0.0123412297999872, 0.9951872199970213)]

/-- A third of the velocity of a cubic curve as `mid + x slope + x² bend`, for `x` from
`-1` to `1` along the curve. -/
structure Velocity where
  mid : Point Float
  slope : Point Float
  bend : Point Float

namespace Velocity

def ofCubic (p c d q : Point Float) : Velocity :=
  let first := c - p
  let second := d - c
  let third := q - d
  { mid := scale 0.25 (first + third) + scale 0.5 second
    slope := scale 0.5 ((third - second) + (second - first))
    bend := scale 0.25 ((third - second) - (second - first)) }

/-- The length by quadrature. -/
def length (v : Velocity) (nodes : Nodes) : Float :=
  nodes.foldl
    (fun sum (weight, x) =>
      let even := v.mid + scale (x * x) v.bend
      let odd := scale x v.slope
      sum + 1.5 * weight * ((even + odd).norm + (even - odd).norm))
    0.0

/-- How fast the velocity changes along the curve, in parts of itself. -/
def unevenness (v : Velocity) : Float :=
  let part (x : Float) :=
    let speed := v.mid + scale x v.slope + scale (x * x) v.bend
    let change := v.slope + scale x (scale 2.0 v.bend)
    change.dot change / speed.dot speed
  nodes8.foldl (fun sum (weight, x) => sum + weight * part (-x) + weight * part x) 0.0

end Velocity

/-! ## Lengths -/

/-- The length of a cubic curve.  Halves of halves are taken up to a depth. -/
def cubicLength : Nat → Float → (p c d q : Point Float) → Float
  | depth, tolerance, p, c, d, q =>
      let v := Velocity.ofCubic p c d q
      let slack := (c - p).norm + (d - c).norm + (q - d).norm - (q - p).norm
      let uneven := v.unevenness
      let within (factor bound : Float) (n : Nat) : Bool :=
        Scalar.lesser (power uneven n * factor) bound * slack < tolerance
      if within 2.5e-6 3e-2 3 then v.length nodes8
      else if within 1.5e-11 9e-3 6 then v.length nodes16
      else if within 3.5e-16 3.5e-3 9 then v.length nodes24
      else
        match depth with
        | 0 => v.length nodes24
        | depth + 1 =>
            let middle := Segment.cubicPoint p c d q 0.5
            -- halves that meet nowhere have no length
            if middle.x.isNaN && middle.y.isNaN then middle.x
            else
              cubicLength depth (tolerance * 0.5) p (scale 0.5 (p + c))
                  (scale 0.25 (p + scale 2.0 c + d)) middle +
                cubicLength depth (tolerance * 0.5) middle (scale 0.25 (c + scale 2.0 d + q))
                  (scale 0.5 (d + q)) q

/-- How often a cubic curve is halved at most. -/
def cubicDepth : Nat := 20

/-- The length of a quadratic curve that is nearly straight. -/
def flatLength (p c q : Point Float) : Float :=
  (scale (-0.492943519233745) p + scale 0.430331482911935 c + scale 0.0626120363218102 q).norm +
    (scale 0.4444444444444444 (q - p)).norm +
    (scale (-0.0626120363218102) p - scale 0.430331482911935 c +
      scale 0.492943519233745 q).norm

/-- The length of a quadratic curve. -/
def quadraticLength (p c q : Point Float) : Float :=
  let bend := p - scale 2.0 c + q
  let first := c - p
  let a := bend.dot bend
  let b := 2.0 * bend.dot first
  let k := first.dot first
  if a < 5e-4 * k then flatLength p c q
  else
    let whole := (a + b + k).sqrt
    let r := a.pow (-0.5)
    let twice := 2.0 * k.sqrt
    let base := 0.25 * r * r * b * (2.0 * whole - twice) + whole
    let turn := b * r + twice
    -- a sharp kink
    if turn < 1e-13 then base
    else
      base + 0.25 * power r 3 * (4.0 * k * a - b * b) *
        (((2.0 * a + b) * r + 2.0 * whole) / turn).log

/-- The length of a segment. -/
def Segment.length (tolerance : Float) : Segment → Float
  | .line p q => (q - p).norm
  | .quadratic p c q => quadraticLength p c q
  | .cubic p c d q => cubicLength cubicDepth tolerance p c d q

/-! ## The place at a length -/

/-- The part of a segment between two parameters. -/
def Segment.part (t u : Float) : Segment → Segment
  | .line p q => .line (p.towards q t) (p.towards q u)
  | .quadratic p c q =>
      let step := scale (u - t) ((c - p).towards (q - c) t)
      .quadratic (quadraticPoint p c q t) (quadraticPoint p c q t + step) (quadraticPoint p c q u)
  | .cubic p c d q =>
      let velocity (t : Float) :=
        quadraticPoint (scale 3.0 (c - p)) (scale 3.0 (d - c)) (scale 3.0 (q - d)) t
      let step := (u - t) * (1.0 / 3.0)
      let a := cubicPoint p c d q t
      let b := cubicPoint p c d q u
      .cubic a (a + scale step (velocity t)) (b - scale step (velocity u)) b

/-- The state of a search for the parameter at a length: a bracket, how far the lengths
at its ends are off, how far a guess may be from the middle of the bracket, and the last
parameter tried with the length up to it. -/
structure Search where
  low : Float
  high : Float
  below : Float
  above : Float
  slack : Float
  tried : Float
  reached : Float

namespace Search

/-- The next parameter to try: where a straight line through the ends of the bracket
would be right, moved towards the middle of the bracket and kept near it. -/
def guess (s : Search) : Float :=
  let middle := 0.5 * (s.low + s.high)
  let width := s.high - s.low
  let straight := (s.above * s.low - s.below * s.high) / (s.above - s.below)
  let back := middle - straight
  let toMiddle (x : Float) := Number.withSign (back.isNaN || Number.signBit back) x.abs
  let move := 0.2 * (width * width)
  let moved :=
    if move ≤ back.abs then straight + toMiddle move else middle
  let radius := s.slack - 0.5 * width
  if (moved - middle).abs ≤ radius then moved else middle - toMiddle radius

/-- Narrow the bracket until it is as small as `2 * precision`. -/
def run (segment : Segment) (target tolerance precision : Float) : Nat → Search → Float
  | 0, s => 0.5 * (s.low + s.high)
  | fuel + 1, s =>
      if !(2.0 * precision < s.high - s.low) then 0.5 * (s.low + s.high)
      else
        let t := s.guess
        let reached :=
          if s.tried < t then s.reached + (segment.part s.tried t).length tolerance
          else s.reached - (segment.part t s.tried).length tolerance
        let off := reached - target
        let s := { s with slack := s.slack * 0.5, tried := t, reached }
        let narrow := run segment target tolerance precision fuel
        if 0.0 < off then narrow { s with high := t, above := off }
        else if off < 0.0 then narrow { s with low := t, below := off }
        else t

end Search

/-- The parameter at a length from the start of a segment.  The slack is halved at every
step, from as much as halving the bracket and one step more would need.  Numbers of steps
are counted modulo 64 for this, so a segment too long for that many has almost no slack. -/
def Segment.parameterAt (target tolerance : Float) (segment : Segment) : Float :=
  if target ≤ 0.0 then 0.0
  else
    let total := segment.length tolerance
    if total ≤ target then 1.0
    else
      let precision := tolerance / total
      let parts := 1.0 - Scalar.lesser (Number.ceil precision.log2) 0.0
      let halvings := Number.toNat (Number.ceil (1.0 / precision).log2 - 1.0) + 1
      Search.run segment target (tolerance / parts) precision (halvings + 64)
        { low := 0.0, high := 1.0, below := -target, above := total - target
          slack := precision * Number.twoPow (halvings % 64 : Nat), tried := 0.0, reached := 0.0 }

end Infographic
