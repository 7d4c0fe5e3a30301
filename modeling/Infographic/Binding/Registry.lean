/-
# Infographic.Binding.Registry -- all bindings of a drawing

A drawing is bound to data in three families: texts first, then transforms, then paint.
A table is applied to the bindings in that order.
-/
import Infographic.Binding.Paint
import Infographic.Binding.Transform
import Infographic.Binding.Wording

namespace Infographic

set_option autoImplicit false

open Markup (Document NodeId)
open Binding

/-- An element bound to data. -/
inductive Binding where
  | wording (b : WordingBinding)
  | transform (b : TransformBinding)
  | paint (b : PaintBinding)

/-- The families of bindings that are made. -/
structure Families where
  wording : Bool
  transforms : Bool
  paint : Bool
  deriving Repr, DecidableEq

namespace Families

def all : Families := ⟨true, true, true⟩
def none : Families := ⟨false, false, false⟩

/-- Add a family by its name; unknown names add nothing. -/
def add (families : Families) (name : String) : Families :=
  match name with
  | "all" => all
  | "text" => { families with wording := true }
  | "transforms" | "shapes" => { families with transforms := true }
  | "styles" => { families with paint := true }
  | _ => families

/-- The families in a list of names with commas between them. -/
def ofText (s : String) : Families :=
  ((Text.splitAt ',' s.toList).map fun name => String.ofList (Text.trim name)).foldl add none

end Families

namespace Binding

/-! ## Making bindings -/

/-- Bind some elements, one after the other. -/
def bindAll {β : Type} (bind : Document → NodeId → Document × β) (d : Document) :
    List NodeId → Document × List β
  | [] => (d, [])
  | id :: rest =>
      let (d, b) := bind d id
      let (d, more) := bindAll bind d rest
      (d, b :: more)

/-- Bind the elements of a family, if it is asked for. -/
def bindFamily {β : Type} (asked : Bool) (eligible : Document → NodeId → List NodeId)
    (bind : Document → NodeId → Document × β) (root : NodeId) (d : Document) :
    Document × List β :=
  if asked then bindAll bind d (eligible d root) else (d, [])

/-- Make the bindings below a node. -/
def bindDrawing (families : Families) (root : NodeId) (d : Document) :
    Document × List Binding :=
  let (d, texts) :=
    bindFamily families.wording WordingBinding.eligible WordingBinding.bind root d
  let (d, moved) :=
    bindFamily families.transforms TransformBinding.eligible TransformBinding.bind root d
  let (d, painted) :=
    bindFamily families.paint PaintBinding.eligible PaintBinding.bind root d
  (d, texts.map wording ++ moved.map transform ++ painted.map paint)

/-! ## Using bindings -/

/-- The element of a binding. -/
def element : Binding → NodeId
  | .wording b => b.element
  | .transform b => b.element
  | .paint b => b.element

/-- Apply a table. -/
def apply (table : Table) (names : NameTable) (d : Document) : Binding → Document × Binding
  | .wording b => (b.apply table d, .wording b)
  | .transform b =>
      let (d, b) := b.apply table names d
      (d, .transform b)
  | .paint b => (b.apply table d, .paint b)

/-- Let the clock go on; also whether more frames are needed. -/
def advance (now : Float) (d : Document) : Binding → (Document × Binding) × Bool
  | .transform b =>
      let ((d, b), more) := b.advance now d
      ((d, .transform b), more)
  | b => ((d, b), false)

/-- A tick of the clock, without the wish for more frames. -/
def tick (now : Float) (d : Document) (b : Binding) : Document × Binding :=
  (b.advance now d).1

/-- Whether an easing runs that moves something. -/
def isMoving : Binding → Bool
  | .transform b => b.isMoving
  | _ => false

theorem advance_snd (now : Float) (d : Document) (b : Binding) :
    (b.advance now d).2 = (b.tick now d).2.isMoving := by
  cases b with
  | transform b => exact b.advance_snd now d
  | _ => rfl

/-- Run every binding of a drawing in order. -/
def runAll (step : Document → Binding → Document × Binding) (d : Document) :
    List Binding → Document × List Binding
  | [] => (d, [])
  | b :: rest =>
      let (d, b) := step d b
      let (d, more) := runAll step d rest
      (d, b :: more)

/-- Let the clock go on for every binding in order; also whether any of them needs more
frames. -/
def advanceAll (now : Float) (d : Document) : List Binding → (Document × List Binding) × Bool
  | [] => ((d, []), false)
  | b :: rest =>
      let ((d, b), more) := b.advance now d
      let ((d, others), later) := advanceAll now d rest
      ((d, b :: others), more || later)

/-- More frames are needed as long as any binding moves something. -/
theorem advanceAll_eq (now : Float) (d : Document) (bs : List Binding) :
    advanceAll now d bs =
      (runAll (tick now) d bs, (runAll (tick now) d bs).2.any isMoving) := by
  induction bs generalizing d with
  | nil => rfl
  | cons b rest ih =>
      have first : b.advance now d = (b.tick now d, (b.tick now d).2.isMoving) :=
        Prod.ext rfl (advance_snd now d b)
      simp only [advanceAll, runAll, first, ih, List.any_cons]

end Binding

end Infographic
