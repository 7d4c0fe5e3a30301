/-
# Infographic.Motion.Guide -- guides

A guide is a named element that others move along.  A path or a shape that is a line is
followed by its length; any other element is crossed from the lower left to the upper
right corner of its box.  A guide takes its form from the element when it is first
asked, and keeps it.
-/
import Infographic.Binding.Lookup
import Infographic.Shape.Extent

namespace Infographic

set_option autoImplicit false

open Markup (Document NodeId)
open Binding (NameTable)

/-- The form of a guide. -/
inductive GuideForm where
  | across (box : Box Float)
  | along (path : Path)

namespace GuideForm

/-- The form an element has as a guide. -/
def ofElement? (d : Document) (id : NodeId) : Option GuideForm :=
  match Shape.outline? d id with
  | some path => some (.along path)
  | none =>
      (Shape.box? d id).map fun box => .across (box.transform (Shape.ownTransform d id))

/-- The point at a value from zero to one. -/
def pointAt? (t : Float) : GuideForm → Option (Point Float)
  | .across b => some ⟨b.x + b.width * t, b.y + b.height * (1.0 - t)⟩
  | .along path => path.pointAt? t

def isCurved : GuideForm → Bool
  | .across _ => false
  | .along _ => true

end GuideForm

/-- A guide by name, with the form found for it once it was looked for. -/
structure Guide where
  name : String
  found : Option (Option GuideForm)

namespace Guide

/-- A guide that was not looked for yet. -/
def named (name : String) : Guide := ⟨name, none⟩

/-- Look for the element, unless that was done before. -/
def settle (g : Guide) (d : Document) (names : NameTable) : Guide :=
  match g.found with
  | some _ => g
  | none => { g with found := some ((names.find? g.name).bind (GuideForm.ofElement? d)) }

/-- The form of a guide that was found. -/
def form? (g : Guide) : Option GuideForm := g.found.bind id

/-- Whether the guide is followed by length. -/
def isCurved (g : Guide) : Bool := g.form?.any GuideForm.isCurved

/-- The way that takes `origin` to the guide's point at a value. -/
def offset? (g : Guide) (t : Float) (origin : Point Float) : Option (Point Float) :=
  (g.form?.bind (GuideForm.pointAt? t)).map fun p => p - origin

end Guide

end Infographic
