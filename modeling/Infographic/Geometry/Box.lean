/-
# Infographic.Geometry.Box -- boxes

A box is given by its least corner and its size.  The box of some points is the least
one that holds them; boxes are joined and mapped by way of their corners.
-/
import Infographic.Geometry.Point

namespace Infographic

set_option autoImplicit false

/-- A rectangle with sides along the axes. -/
structure Box (α : Type) where
  x : α
  y : α
  width : α
  height : α
  deriving Repr

namespace Box

variable {α : Type} [Scalar α]

open Scalar (whole lesser greater)

/-- The box with nothing in it, at the origin. -/
def zero : Box α := ⟨whole 0, whole 0, whole 0, whole 0⟩

/-- The box between its least and its greatest corner. -/
def between (low high : Point α) : Box α :=
  ⟨low.x, low.y, high.x - low.x, high.y - low.y⟩

/-- The least and the greatest of the coordinates of some points. -/
def spread (first : Point α) (others : List (Point α)) : Point α × Point α :=
  others.foldl
    (fun (low, high) p =>
      (⟨lesser low.x p.x, lesser low.y p.y⟩, ⟨greater high.x p.x, greater high.y p.y⟩))
    (first, first)

/-- The box of a point and others. -/
def ofSpread (first : Point α) (others : List (Point α)) : Box α :=
  between (spread first others).1 (spread first others).2

/-- The box of some points, if there are any. -/
def ofPoints? : List (Point α) → Option (Box α)
  | [] => none
  | first :: others => some (ofSpread first others)

/-- The least corner. -/
def low (b : Box α) : Point α := ⟨b.x, b.y⟩

/-- The other three corners, round the box from the least one. -/
def otherCorners (b : Box α) : List (Point α) :=
  [⟨b.x + b.width, b.y⟩, ⟨b.x + b.width, b.y + b.height⟩, ⟨b.x, b.y + b.height⟩]

def corners (b : Box α) : List (Point α) := b.low :: b.otherCorners

/-- The box of two boxes. -/
def union (b c : Box α) : Box α :=
  ofSpread b.low (b.otherCorners ++ c.corners)

/-- The box of some boxes, if there are any. -/
def unionAll? : List (Box α) → Option (Box α)
  | [] => none
  | b :: others => some (others.foldl union b)

/-- The box of the images of the corners. -/
def transform (m : Matrix α) (b : Box α) : Box α :=
  ofSpread (m.apply b.low) (b.otherCorners.map m.apply)

end Box

end Infographic
