/-
# Infographic.Path.Outline -- walking along a path

A way is a list of stretches, each with a length.  A place on it is given as a part of
the whole length.  Walking skips the stretches that end before that place; the place
lies in the next one, as far behind its start as the lengths skipped are short of it.

A path is walked along its segments by length.  Moves add no length.
-/
import Infographic.Path.Length

namespace Infographic

set_option autoImplicit false

/-- One stretch of a way: its length, where it starts, and the point at a distance from
there. -/
structure Stretch (α : Type) where
  length : α
  start : Point α
  along : α → Point α

namespace Stretch

variable {α : Type} [Scalar α]

open Scalar (whole below isNaN isFinite clampUnit)

/-- A straight stretch between two points, with its length.  One without length is its
start. -/
def straight (length : α) (p q : Point α) : Stretch α :=
  { length
    start := p.towards q (whole 0)
    along := fun distance =>
      p.towards q (if below (whole 0) length then distance / length else whole 0) }

/-- The length of a way, added up in order. -/
def total (way : List (Stretch α)) : α :=
  way.foldl (fun sum s => sum + s.length) (whole 0)

/-- The first stretch that does not end before a place, or the last one, and how far into
it the place is.  `passed` is the length of what was skipped so far. -/
def reach (target : α) : α → List (Stretch α) → Option (Stretch α × α)
  | _, [] => none
  | passed, [s] => some (s, target - passed)
  | passed, s :: rest =>
      if below (passed + s.length) target then reach target (passed + s.length) rest
      else some (s, target - passed)

/-- The point at a part of the whole length, from zero to one.  A way without length is
its start, and so is a place that is no finite number. -/
def pointAt? (way : List (Stretch α)) (t : α) : Option (Point α) :=
  let length := total way
  if (!below (whole 0) length && !isNaN length) || !isFinite t then way.head?.map Stretch.start
  else (reach (clampUnit t * length) (whole 0) way).map fun (s, distance) => s.along distance

end Stretch

/-! ## Paths as ways -/

/-- A segment as a stretch of a way. -/
def Segment.stretch : Segment → Stretch Float
  | .line p q => .straight ((Segment.line p q).length lengthTolerance) p q
  | s =>
      { length := s.length lengthTolerance
        start := s.start
        along := fun distance => s.eval (s.parameterAt distance lengthTolerance) }

namespace Path

/-- A path as a way, every segment measured. -/
def way (path : Path) : List (Stretch Float) :=
  path.segments.map Segment.stretch

/-- Whether a path draws nothing. -/
def isBlank (path : Path) : Bool :=
  path.segments.isEmpty

/-- Where a path starts to draw. -/
def start? (path : Path) : Option (Point Float) :=
  path.segments.head?.map Segment.start

/-- The point at a part of the length. -/
def pointAt? (path : Path) (t : Float) : Option (Point Float) :=
  Stretch.pointAt? path.way t

end Path

end Infographic
