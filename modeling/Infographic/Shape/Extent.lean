/-
# Infographic.Shape.Extent -- boxes and outlines of elements

There is no layout behind the tree, so boxes come from attributes alone: those of shapes
and paths are exact, and a text is taken to be as wide as its characters at an average
width.  Any other element is a group of its children, each seen through its own
transform.

A figure is a shape, a figure seen through a map, or a group of figures.  The box of a
group is the box of the boxes of its parts; parts without a box do not count.

Shapes that are lines have an outline that can be walked along, seen through their own
transform.  A circle or ellipse is followed once round by cubic curves.
-/
import Infographic.Attribute.Number
import Infographic.Geometry.TransformList
import Infographic.Markup.Style
import Infographic.Path.Outline

namespace Infographic

set_option autoImplicit false

/-! ## Figures -/

/-- What is drawn, as far as boxes go. -/
inductive Figure (α : Type) where
  /-- A shape that may have a box. -/
  | shape (box : Option (Box α))
  /-- A figure seen through a map. -/
  | mapped (m : Matrix α) (figure : Figure α)
  | group (parts : List (Figure α))

namespace Figure

variable {α : Type} [Scalar α]

mutual

/-- The box of a figure, if it has one. -/
def box? : Figure α → Option (Box α)
  | .shape box => box
  | .mapped m figure => figure.box?.map (Box.transform m)
  | .group parts => Box.unionAll? (boxes parts)

/-- The boxes of some figures. -/
def boxes : List (Figure α) → List (Box α)
  | [] => []
  | figure :: rest =>
      match figure.box? with
      | some box => box :: boxes rest
      | none => boxes rest

end

end Figure

namespace Shape

open Markup (Document NodeId)
open Attribute (length? firstLength?)

/-! ## Attributes as numbers -/

/-- A length attribute; zero without one that can be read. -/
def number (d : Document) (id : NodeId) (name : String) : Float :=
  ((d.attribute? id name).bind length?).getD 0.0

/-- The first of the lengths in an attribute. -/
def firstNumber? (d : Document) (id : NodeId) (name : String) : Option Float :=
  (d.attribute? id name).bind firstLength?

/-- Two length attributes. -/
def place (d : Document) (id : NodeId) (x y : String) : Point Float :=
  ⟨number d id x, number d id y⟩

/-- The points of the `points` attribute. -/
def points? (d : Document) (id : NodeId) : Option (List (Point Float)) :=
  (d.attribute? id "points").map fun s => (Attribute.pairs s).map fun (x, y) => ⟨x, y⟩

/-- The ends of a line. -/
def lineEnds (d : Document) (id : NodeId) : List (Point Float) :=
  [place d id "x1" "y1", place d id "x2" "y2"]

/-- The path of the `d` attribute. -/
def path? (d : Document) (id : NodeId) : Option Path :=
  (d.attribute? id "d").map Path.ofData

/-- The map of an element's own `transform` attribute. -/
def ownTransform (d : Document) (id : NodeId) : Matrix Float :=
  ((d.attribute? id "transform").map Geometry.transformOf).getD .identity

/-! ## Texts -/

/-- The height of text without a font size. -/
def defaultFontSize : Float := 16.0

/-- The average width of a character, in heights. -/
def glyphAdvance : Float := 0.6

/-- How far text rises above its line, in heights. -/
def ascent : Float := 0.8

/-- The font size an element sets, as a style or as an attribute. -/
def fontSize? (d : Document) (id : NodeId) : Option Float :=
  ((d.style? id "font-size").bind length?).or ((d.attribute? id "font-size").bind length?)

/-- The font size of an element: its own, or that of the nearest node above with one. -/
def fontSize (d : Document) (id : NodeId) : Float :=
  ((d.lineage id).findSome? (fontSize? d)).getD defaultFontSize

/-- Where a text is placed; a part of a text takes what it lacks from the text. -/
def textPlace (d : Document) (id : NodeId) : Point Float :=
  let outer := (d.parent? id).filter fun p => d.tag? p == some "text"
  let coordinate (name : String) : Float :=
    ((firstNumber? d id name).or (outer.bind fun p => firstNumber? d p name)).getD 0.0
  ⟨coordinate "x", coordinate "y"⟩

/-- The box of a text. -/
def textBox (d : Document) (id : NodeId) : Box Float :=
  let size := fontSize d id
  let width := Float.ofNat (Text.trim (d.text id).toList).length * size * glyphAdvance
  let p := textPlace d id
  let left := match (d.attribute? id "text-anchor").or (d.style? id "text-anchor") with
    | some "middle" => p.x - width / 2.0
    | some "end" => p.x - width
    | _ => p.x
  ⟨left, p.y - size * ascent, width, size⟩

/-! ## Elements -/

/-- The box round a centre. -/
def roundBox (centre radii : Point Float) : Box Float :=
  ⟨centre.x - radii.x, centre.y - radii.y, 2.0 * radii.x, 2.0 * radii.y⟩

/-- The box of a shape or text, by its tag; nothing for a group. -/
def shapeBox? (d : Document) (id : NodeId) : String → Option (Option (Box Float))
  | "rect" | "image" | "use" | "foreignObject" =>
      some (some ⟨number d id "x", number d id "y", number d id "width", number d id "height"⟩)
  | "circle" =>
      let r := number d id "r"
      some (some (roundBox (place d id "cx" "cy") ⟨r, r⟩))
  | "ellipse" => some (some (roundBox (place d id "cx" "cy") (place d id "rx" "ry")))
  | "line" => some (Box.ofPoints? (lineEnds d id))
  | "polyline" | "polygon" => some ((points? d id).bind Box.ofPoints?)
  | "path" => some ((path? d id).bind Path.box?)
  | "text" | "tspan" => some (some (textBox d id))
  | _ => none

/-- The figure of a node, with `fuel` for the height. -/
def figureFrom (d : Document) : Nat → NodeId → Figure Float
  | 0, _ => .shape none
  | fuel + 1, id =>
      match d.tag? id with
      | none => .shape none
      | some tag =>
          match shapeBox? d id tag with
          | some box => .shape box
          | none =>
              .group ((d.elementChildren id).map fun c =>
                .mapped (ownTransform d c) (figureFrom d fuel c))

/-- The figure of a node. -/
def figure (d : Document) (id : NodeId) : Figure Float :=
  figureFrom d (d.nodeCount + 1) id

/-- The box of an element, before its own transform. -/
def box? (d : Document) (id : NodeId) : Option (Box Float) :=
  (figure d id).box?

/-! ## Outlines -/

/-- The outline of an ellipse that has an extent. -/
def ellipseOutline? (centre radii : Point Float) : Option Path :=
  if radii.x ≤ 0.0 ∨ radii.y ≤ 0.0 then none
  else some (Path.ofArc lengthTolerance (Arc.ellipse centre radii))

/-- The outline of a shape by its tag, before its own transform. -/
def plainOutline? (d : Document) (id : NodeId) : String → Option Path
  | "path" => path? d id
  | "polyline" => (points? d id).map fun ps => Path.ofPoints ps false
  | "polygon" => (points? d id).map fun ps => Path.ofPoints ps true
  | "line" => some (Path.ofPoints (lineEnds d id) false)
  | "circle" =>
      let r := number d id "r"
      ellipseOutline? (place d id "cx" "cy") ⟨r, r⟩
  | "ellipse" => ellipseOutline? (place d id "cx" "cy") (place d id "rx" "ry")
  | _ => none

/-- The outline of an element.  One that draws nothing is none. -/
def outline? (d : Document) (id : NodeId) : Option Path := do
  let path ← plainOutline? d id (← d.tag? id)
  if path.isBlank then none
  else
    let m := ownTransform d id
    some (if m.isIdentity then path else path.transform m)

end Shape

end Infographic
