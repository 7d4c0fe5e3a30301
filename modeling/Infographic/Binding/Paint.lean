/-
# Infographic.Binding.Paint -- elements coloured by data

An element whose id has an option for fill, line or opacity is blended from its own
colour towards another one, or made more or less opaque, by the value of a column.
-/
import Infographic.Binding.Lookup
import Infographic.Colour.Reader
import Infographic.Markup.Style
import Infographic.Table.Basic

namespace Infographic.Binding

set_option autoImplicit false

open Markup (Document NodeId)

/-- What a column can paint. -/
inductive PaintKind where
  | fill
  | line
  | alpha
  deriving Repr, DecidableEq

namespace PaintKind

/-- All kinds, in the order in which they are written. -/
def all : List PaintKind := [.fill, .line, .alpha]

/-- The option keys that ask for a kind. -/
def keys : PaintKind → List String
  | .fill => ["fill", "f"]
  | .line => ["line", "l"]
  | .alpha => ["alpha", "a"]

def allKeys : List String := all.flatMap keys

end PaintKind

/-- An element coloured by data, with what it looked like when it was bound. -/
structure PaintBinding where
  element : NodeId
  options : Directive.Options
  alpha : Float
  fill : Colour
  stroke : Colour

namespace PaintBinding

/-- The colour an element is painted with, by its style or else by its attribute. -/
def painted (d : Document) (id : NodeId) (property : String) : Colour :=
  (((d.style? id property).or (d.attribute? id property)).bind Colour.ofText?).getD .black

/-- The opacity in an element's attribute. -/
def opacityOf (d : Document) (id : NodeId) : Float :=
  ((d.attribute? id "opacity").bind fun s => Number.readExtended (Text.trim s.toList)).getD 1.0

/-- The properties that change slowly: those that did, and the painted ones. -/
def slowProperties (d : Document) (id : NodeId) : List (List Char) :=
  let before := ((d.style? id "transition-property").map fun s =>
    (Text.splitAt ',' s.toList).map Text.trim).getD []
  before.filter (fun p => !p.isEmpty) ++ ["fill", "stroke", "opacity"].map String.toList

/-- Bind an element; changes of its paint take a second. -/
def bind (d : Document) (element : NodeId) : Document × PaintBinding :=
  let slow := String.ofList (Text.join [','] (slowProperties d element))
  let bound :=
    (d.setStyle element "transition-property" slow).setStyle element "transition-duration" "1s"
  (bound,
    { element
      options := optionsOf d element
      alpha := opacityOf bound element
      fill := painted bound element "fill"
      stroke := painted bound element "stroke" })

/-- The elements below a node to be bound. -/
def eligible (d : Document) (root : NodeId) : List NodeId :=
  withOptions d root PaintKind.allKeys

/-- The colour blended towards when the options give none. -/
def defaultTarget : Colour := .opaqueOf 255 0 0

/-- The colour under one of some keys. -/
def target (b : PaintBinding) (keys : List String) : Colour :=
  ((b.options.first? keys).bind fun v => Colour.ofText? v.toText).getD defaultTarget

/-- The property a kind writes, and its value. -/
def declaration (b : PaintBinding) (t : Float) : PaintKind → String × String
  | .fill => ("fill", (b.fill.blend (b.target ["fillColor", "fc"]) t).toCss)
  | .line => ("stroke", (b.stroke.blend (b.target ["lineColor", "lc"]) t).toCss)
  | .alpha => ("opacity", Number.plainText (b.alpha * t))

/-- The value that drives a kind. -/
def value? (b : PaintBinding) (t : Table) (kind : PaintKind) : Option Float :=
  (b.options.first? kind.keys).bind fun v => t.normalized? v.toText

/-- Write the paint of one kind. -/
def applyKind (table : Table) (b : PaintBinding) (d : Document) (kind : PaintKind) : Document :=
  match b.value? table kind with
  | some t => d.setStyle b.element (b.declaration t kind).1 (b.declaration t kind).2
  | none => d

/-- Write the paint for a table. -/
def apply (table : Table) (d : Document) (b : PaintBinding) : Document :=
  PaintKind.all.foldl (applyKind table b) d

end PaintBinding

end Infographic.Binding
