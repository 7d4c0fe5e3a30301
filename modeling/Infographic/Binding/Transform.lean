/-
# Infographic.Binding.Transform -- elements moved by data

An element whose id has an option for a transform is put into two groups: the inner one
takes over its class, style and clipping, so that they stay where they were, and the
outer one carries it along a curved guide.  Transforms are written to the element's own
style, except that a position on a curved guide is eased, frame by frame.
-/
import Infographic.Binding.TransformKind
import Infographic.Directive.Range
import Infographic.Motion.Easing
import Infographic.Motion.Guide
import Infographic.Table.Basic

namespace Infographic.Binding

set_option autoImplicit false

open Markup (Document NodeId)

/-- An element moved by data. -/
structure TransformBinding where
  element : NodeId
  /-- The group that holds the element's class, style and clipping. -/
  base : NodeId
  /-- The group that moves along a guide. -/
  carrier : NodeId
  options : Directive.Options
  /-- The box of the element when it was bound. -/
  box : Box Float
  /-- The point that stays in place when the element is scaled or turned. -/
  origin : Point Float
  /-- What writes the element's own transform attribute. -/
  baseFragments : List String
  guide : Option Guide
  easing : Easing Float
  /-- The kind that follows a curved guide. -/
  followed : Option TransformKind

namespace TransformBinding

/-! ## Binding an element -/

/-- The tags of elements that can be moved. -/
def movableTags : List String :=
  ["g", "rect", "circle", "ellipse", "line", "polyline", "polygon", "path", "text", "image",
    "use"]

/-- The class of the groups that move along guides. -/
def carrierClass : String := "__guide__"

/-- The origin that the options give, as parts of the box; its least corner unless they
give finite numbers. -/
def originIn (opts : Directive.Options) (box : Box Float) : Point Float :=
  let ends := match opts.first? ["origin", "o"] with
    | some v => (Directive.Range.ofText v.toText.toList).ends
    | none => (0.0, 0.0)
  let part (x : Float) := if x.isFinite then x else 0.0
  ⟨box.x + box.width * part ends.1, box.y + box.height * part ends.2⟩

/-- Hand an attribute over to another element. -/
def handOver (source target : NodeId) (d : Document) (name : String) : Document :=
  match d.attribute? source name with
  | some value => (d.removeAttribute source name).setAttribute target name value
  | none => d

/-- Put an element into its two groups; the inner and the outer one. -/
def enclose (d : Document) (element : NodeId) : Document × NodeId × NodeId :=
  let (d, base) := d.wrap element "g"
  let d := ["class", "style", "clip-path"].foldl (handOver element base) d
  let (d, carrier) := d.wrap base "g"
  (d.setAttribute carrier "class" carrierClass, base, carrier)

/-- Let changes of an element's transform take a second. -/
def prepare (d : Document) (element : NodeId) (origin : Point Float) : Document :=
  let d := d.setAttribute element "vector-effect" "non-scaling-stroke"
  let d := d.setStyle element "transition-property" "transform"
  let d := d.setStyle element "transition-duration" "1s"
  d.setStyle element "transform-origin"
    (Number.plainText origin.x ++ "px " ++ Number.plainText origin.y ++ "px")

/-- Bind an element. -/
def bind (d : Document) (element : NodeId) : Document × TransformBinding :=
  let options := optionsOf d element
  let box := (Shape.box? d element).getD .zero
  let origin := originIn options box
  let maps := ((d.attribute? element "transform").map Geometry.transformList).getD []
  let (d, base, carrier) := enclose d element
  (prepare d element origin,
    { element, base, carrier, options, box, origin
      baseFragments := maps.map Matrix.toCss
      guide := (options.first? ["guide", "g"]).map fun v => .named v.toText
      easing := .atRest
      followed := none })

/-- The elements below a node to be bound. -/
def eligible (d : Document) (root : NodeId) : List NodeId :=
  (withOptions d root TransformKind.allKeys).filter fun id =>
    (d.tag? id).any movableTags.contains

/-! ## Writing transforms -/

/-- What is written before the kinds: the element's own transform, about the origin. -/
def opening (b : TransformBinding) : List String :=
  if b.baseFragments.isEmpty then []
  else
    TransformKind.move (-b.origin) ::
      (b.baseFragments ++ [TransformKind.move b.origin])

/-- The value that drives a kind. -/
def value? (b : TransformBinding) (t : Table) (kind : TransformKind) : Option Float :=
  (b.options.first? kind.keys).bind fun v => t.normalized? v.toText

/-- Follow a curved guide; only the first of the kinds does. -/
def follow (b : TransformBinding) (kind : TransformKind) (t : Float) : TransformBinding :=
  { b with easing := b.easing.retarget t, followed := some kind }

/-- The state while the kinds are gone through: the binding, what was written so far, and
whether a kind follows a curved guide. -/
abbrev Progress := TransformBinding × List String × Bool

/-- Go through a position with a guide. -/
def applyGuided (d : Document) (names : NameTable) (kind : TransformKind) (t : Float)
    (guide : Guide) : Progress → Progress
  | (b, written, following) =>
      let guide := guide.settle d names
      let b := { b with guide := some guide }
      if guide.isCurved then (if following then b else b.follow kind t, written, true)
      else
        match guide.offset? t b.origin with
        | some offset => (b, written ++ [kind.offsetFragment offset], following)
        | none => (b, written ++ [kind.fragment t b.options], following)

/-- Go through a kind. -/
def applyKind (d : Document) (names : NameTable) (table : Table) (progress : Progress)
    (kind : TransformKind) : Progress :=
  let (b, written, following) := progress
  match b.value? table kind, (if kind.isPosition then b.guide else none) with
  | none, _ => progress
  | some t, some guide => applyGuided d names kind t guide progress
  | some t, none => (b, written ++ [kind.fragment t b.options], following)

/-- Write the transforms for a table. -/
def apply (table : Table) (names : NameTable) (d : Document) (b : TransformBinding) :
    Document × TransformBinding :=
  let (b, written, _) :=
    TransformKind.all.foldl (applyKind d names table) (b, b.opening, false)
  (if written.isEmpty then d.removeStyle b.element "transform"
    else d.setStyle b.element "transform" (" ".intercalate written), b)

/-- Let the clock go on: the value of this frame moves the carrier.  Also whether more frames
are needed. -/
def advance (now : Float) (d : Document) (b : TransformBinding) :
    (Document × TransformBinding) × Bool :=
  match b.followed, b.guide with
  | some kind, some guide =>
      let ((easing, frame), more) := b.easing.advance now
      let d := match frame.bind fun t => guide.offset? t b.origin with
        | some offset => d.setStyle b.carrier "transform" (kind.offsetFragment offset)
        | none => d
      ((d, { b with easing }), more)
  | _, _ => ((d, b), false)

/-- A tick of the clock, without the wish for more frames. -/
def tick (now : Float) (d : Document) (b : TransformBinding) : Document × TransformBinding :=
  (b.advance now d).1

/-- Whether an easing runs that moves the carrier. -/
def isMoving (b : TransformBinding) : Bool :=
  b.followed.isSome && b.guide.isSome && b.easing.active

theorem tick_of_followed {b : TransformBinding} {kind : TransformKind} {guide : Guide}
    (followed : b.followed = some kind) (held : b.guide = some guide) (now : Float)
    (d : Document) :
    b.tick now d =
      (match (b.easing.tick now).2.bind fun t => guide.offset? t b.origin with
        | some offset => d.setStyle b.carrier "transform" (kind.offsetFragment offset)
        | none => d,
      { b with easing := (b.easing.tick now).1 }) := by
  rw [tick, advance, followed, held]
  rfl

/-- The clock counts an easing on, and writes to the carrier only. -/
theorem tick_cases (now : Float) (d : Document) (b : TransformBinding) :
    ∃ easing, b.tick now d = (d, { b with easing }) ∨
      ∃ (kind : TransformKind) (offset : Point Float), b.tick now d =
        (d.setStyle b.carrier "transform" (kind.offsetFragment offset), { b with easing }) := by
  unfold tick advance
  split
  · dsimp only
    split
    · exact ⟨_, .inr ⟨_, _, rfl⟩⟩
    · exact ⟨_, .inl rfl⟩
  · exact ⟨b.easing, .inl rfl⟩

/-- More frames are needed exactly while an easing moves the carrier. -/
theorem advance_snd (now : Float) (d : Document) (b : TransformBinding) :
    (b.advance now d).2 = (b.tick now d).2.isMoving := by
  cases followed : b.followed with
  | none => simp [tick, advance, isMoving, followed]
  | some kind =>
      cases held : b.guide with
      | none => simp [tick, advance, isMoving, followed, held]
      | some guide =>
          rw [tick_of_followed followed held, isMoving]
          simp [advance, followed, held, Easing.advance_snd]

end TransformBinding

end Infographic.Binding
