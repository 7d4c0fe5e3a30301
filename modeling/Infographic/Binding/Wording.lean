/-
# Infographic.Binding.Wording -- texts worded by data

A phrase is a text whose tags name columns.  Filling it in writes the first row's cell
for every tag, or the name of the column where the tag asks for it.  What is filled in
is not read again.

A text element with tags in it is worded anew for every table.  The text it had when it
was bound is the phrase, so that changes never build on one another.  An option may ask
for the edge the text grows from; the text is then placed at that edge of its box.
-/
import Infographic.Binding.Lookup
import Infographic.Shape.Extent
import Infographic.Table.Basic

namespace Infographic

set_option autoImplicit false

namespace Phrase

/-- What a directive writes. -/
def fillDirective (t : Table) (d : Directive) : String :=
  match t.referred? d.name with
  | none => failureMark
  | some c =>
      if d.options.isOn ["name", "n"] then c.name
      else t.display 0 (.name c.name) (d.options.isOn ["compact", "c"])

/-- What a tag writes; a tag that cannot be read writes the failure mark. -/
def fillTag (t : Table) (tag : List Char) : List Char :=
  match Directive.ofText (String.ofList tag) with
  | .ok d => (fillDirective t d).toList
  | .error _ => failureMark.toList

/-- Fill in every tag of a phrase. -/
def fill (t : Table) (phrase : String) : String :=
  String.ofList (Directive.replaceTags (fillTag t) phrase.toList)

end Phrase

namespace Binding

open Markup (Document NodeId)

/-- A text worded by data. -/
structure WordingBinding where
  element : NodeId
  phrase : String

/-- The part of a text that stays in place. -/
inductive Anchor where
  | start
  | middle
  | stop

namespace Anchor

/-- The anchor an option asks for. -/
def ofText? : String → Option Anchor
  | "start" | "left" | "l" => some .start
  | "middle" | "center" | "c" | "m" => some .middle
  | "end" | "right" | "r" => some .stop
  | _ => none

/-- The value of the `text-anchor` attribute. -/
def name : Anchor → String
  | .start => "start"
  | .middle => "middle"
  | .stop => "end"

/-- Where the anchor of a box is. -/
def position (b : Box Float) : Anchor → Float
  | .start => b.x
  | .middle => b.x + b.width / 2.0
  | .stop => b.x + b.width

end Anchor

namespace WordingBinding

/-- The anchor that the id of an element asks for. -/
def anchorOf? (d : Document) (id : NodeId) : Option Anchor :=
  ((idOptions? d id).bind fun opts => opts.first? ["align", "a"]).bind fun v =>
    Anchor.ofText? v.toText

/-- The anchor asked for by an element, or else by its parent. -/
def requested? (d : Document) (id : NodeId) : Option Anchor :=
  (anchorOf? d id).or ((d.parent? id).bind (anchorOf? d))

/-- Place a text at the anchor asked for. -/
def align (d : Document) (id : NodeId) : Document :=
  match requested? d id, Shape.box? d id with
  | some anchor, some box =>
      (d.setAttribute id "x" (Number.plainText (anchor.position box))).setAttribute id
        "text-anchor" anchor.name
  | _, _ => d

/-- Bind an element. -/
def bind (d : Document) (element : NodeId) : Document × WordingBinding :=
  (align d element, { element, phrase := d.text element })

/-- The parts of a text that are worded: its child elements, or the text itself if it has
none. -/
def parts (d : Document) (text : NodeId) : List NodeId :=
  match d.elementChildren text with
  | [] => [text]
  | children => children

/-- The elements below a node to be bound. -/
def eligible (d : Document) (root : NodeId) : List NodeId :=
  ((d.findAll root ["text"]).flatMap (parts d)).filter fun id =>
    Directive.hasTag (d.text id).toList

/-- Word the text for a table. -/
def apply (table : Table) (d : Document) (b : WordingBinding) : Document :=
  d.setText b.element (Phrase.fill table b.phrase)

end WordingBinding

end Binding

end Infographic
