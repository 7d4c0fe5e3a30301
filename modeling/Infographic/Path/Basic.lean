/-
# Infographic.Path.Basic -- paths

A path is a list of elements with places.  Its segments are the lines and curves that
are drawn: a move draws nothing and starts a new run, and closing a run draws a line
back to its start unless that is where it ends.  Path data becomes a path by giving
every command its places: steps are added up, missing control points are reflected, and
arcs become cubic curves.
-/
import Infographic.Path.Arc
import Infographic.Path.Command

namespace Infographic

set_option autoImplicit false

/-- One element of a path. -/
inductive PathElement where
  | move (p : Point Float)
  | line (p : Point Float)
  | quadratic (c p : Point Float)
  | cubic (c d p : Point Float)
  | close

/-- A line or curve with both its ends. -/
inductive Segment where
  | line (p q : Point Float)
  | quadratic (p c q : Point Float)
  | cubic (p c d q : Point Float)

abbrev Path := List PathElement

namespace PathElement

/-- Map all points of an element. -/
def transform (m : Matrix Float) : PathElement → PathElement
  | .move p => .move (m.apply p)
  | .line p => .line (m.apply p)
  | .quadratic c p => .quadratic (m.apply c) (m.apply p)
  | .cubic c d p => .cubic (m.apply c) (m.apply d) (m.apply p)
  | .close => .close

end PathElement

namespace Path

/-- The segments of a path, for the start of the run and the place reached so far. -/
def segmentsFrom (start here : Point Float) : Path → List Segment
  | [] => []
  | .move p :: rest => segmentsFrom p p rest
  | .line p :: rest => .line here p :: segmentsFrom start p rest
  | .quadratic c p :: rest => .quadratic here c p :: segmentsFrom start p rest
  | .cubic c d p :: rest => .cubic here c d p :: segmentsFrom start p rest
  | .close :: rest =>
      if here == start then segmentsFrom start here rest
      else .line here start :: segmentsFrom start start rest

/-- The lines and curves that are drawn. -/
def segments (path : Path) : List Segment :=
  segmentsFrom .origin .origin path

/-- The image of a path. -/
def transform (m : Matrix Float) (path : Path) : Path :=
  path.map (PathElement.transform m)

/-- A run of lines through some points.  Only a run through three points or more can be
closed. -/
def ofPoints (points : List (Point Float)) (closed : Bool) : Path :=
  match points with
  | [] => []
  | p :: rest =>
      .move p :: rest.map PathElement.line ++
        (if closed && 2 < points.length then [.close] else [])

/-- The cubic curves along an arc, as elements. -/
def arcElements (tolerance : Float) (arc : Arc) : Path :=
  (arc.cubics tolerance).map fun (c, d, p) => .cubic c d p

/-- The path along an arc. -/
def ofArc (tolerance : Float) (arc : Arc) : Path :=
  .move arc.first :: arcElements tolerance arc

end Path

/-! ## From commands to elements -/

/-- The control point before the place reached so far, if the last command was a
curve. -/
inductive LastControl where
  | none
  | quadratic (c : Point Float)
  | cubic (c : Point Float)

/-- Where the pen is while commands are carried out. -/
structure Pen where
  /-- Where the run began. -/
  start : Point Float
  here : Point Float
  control : LastControl
  /-- Whether the last element closed the run. -/
  closed : Bool

namespace Pen

/-- The pen before the first command. -/
def fresh : Pen :=
  ⟨.origin, .origin, .none, false⟩

/-- A control point reflected at the place reached so far. -/
def reflected (pen : Pen) (c : Point Float) : Point Float :=
  ⟨pen.here.x * 2.0 - c.x, pen.here.y * 2.0 - c.y⟩

/-- The control point with which a cubic curve goes on smoothly. -/
def smoothCubic (pen : Pen) : Point Float :=
  match pen.control with
  | .cubic c => pen.reflected c
  | _ => pen.here

/-- The control point with which a quadratic curve goes on smoothly. -/
def smoothQuadratic (pen : Pen) : Point Float :=
  match pen.control with
  | .quadratic c => pen.reflected c
  | _ => pen.here

/-- How closely cubic curves follow an arc of path data. -/
def arcTolerance : Float := 0.1

/-- The elements of an arc; a line if there is no arc. -/
def arcTo (pen : Pen) (radii : Point Float) (turn : Float) (large sweep : Bool)
    (p : Point Float) : Path :=
  match Arc.between? pen.here p radii (Matrix.radians turn) large sweep with
  | some arc => Path.arcElements arcTolerance arc
  | none => [.line p]

/-- The elements a command draws, and the control point it leaves.  `steps` tells whether
its points are steps from the place reached so far. -/
def draw (pen : Pen) (steps : Bool) : PathCommand → Path × LastControl :=
  let place (p : Point Float) := if steps then p + pen.here else p
  fun
  | .move p => ([.move (place p)], .none)
  | .line p => ([.line (place p)], .none)
  | .horizontal x => ([.line ⟨if steps then x + pen.here.x else x, pen.here.y⟩], .none)
  | .vertical y => ([.line ⟨pen.here.x, if steps then y + pen.here.y else y⟩], .none)
  | .cubic c d p => ([.cubic (place c) (place d) (place p)], .cubic (place d))
  | .smoothCubic d p => ([.cubic pen.smoothCubic (place d) (place p)], .cubic (place d))
  | .quadratic c p => ([.quadratic (place c) (place p)], .quadratic (place c))
  | .smoothQuadratic p =>
      ([.quadratic pen.smoothQuadratic (place p)], .quadratic pen.smoothQuadratic)
  | .arc radii turn large sweep p => (pen.arcTo radii turn large sweep (place p), .none)
  | .close => (if pen.closed then [] else [.close], .none)

/-- A run that goes on after it was closed starts with a move to where it began. -/
def reopen (pen : Pen) : PathCommand → Path
  | .move _ | .close => []
  | _ => if pen.closed then [.move pen.start] else []

/-- The pen after an element. -/
def follow (pen : Pen) : PathElement → Pen
  | .move p => { pen with start := p, here := p, closed := false }
  | .line p => { pen with here := p, closed := false }
  | .quadratic _ p => { pen with here := p, closed := false }
  | .cubic _ _ p => { pen with here := p, closed := false }
  | .close => { pen with here := pen.start, closed := true }

/-- Carry out commands. -/
def run (pen : Pen) : List (Bool × PathCommand) → Path
  | [] => []
  | (steps, command) :: rest =>
      let (drawn, control) := pen.draw steps command
      let elements := pen.reopen command ++ drawn
      let pen := elements.foldl follow pen
      elements ++ run { pen with control } rest

end Pen

/-- The path of path data. -/
def Path.ofData (s : String) : Path :=
  Pen.fresh.run (PathCommand.read s)

end Infographic
