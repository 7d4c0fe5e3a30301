/-
# Infographic.Session.Template -- drawings made ready for data

A drawing is read, repaired, and its body put into one group, apart from styles and
texts between elements.  Then the names of its elements are collected and its bindings
made.
-/
import Infographic.Binding.Registry
import Infographic.Markup.Cleanup
import Infographic.Markup.Writer
import Infographic.Session.Settings

namespace Infographic

set_option autoImplicit false

open Markup (Document NodeId)

/-- A drawing with its bindings. -/
structure Template where
  document : Document
  /-- The group that holds the body. -/
  instanceGroup : NodeId
  names : Binding.NameTable
  bindings : List Binding
  /-- The body as it was right after the bindings were made. -/
  instanceMarkup : String

/-- Why a drawing cannot be used. -/
inductive TemplateFault where
  /-- The text is not well-formed markup. -/
  | malformed
  /-- There is no `svg` element. -/
  | missingRoot
  deriving Repr, DecidableEq

/-- What is said about a fault.  Nothing is said about malformed markup but that it is. -/
def TemplateFault.message? : TemplateFault → Option String
  | .malformed => none
  | .missingRoot => some "Template error: Missing <svg> root element"

namespace Template

def instanceClass : String := "__instance__"

def instanceId : String := "__instance_0001__"

/-- Whether a child of the drawing belongs to its body. -/
def isBody (d : Document) (id : NodeId) : Bool :=
  d.tag? id != some "style"

/-- Put the body of a drawing into a new group at its end. -/
def gather (d : Document) (svg : NodeId) : Document × NodeId :=
  let (d, group) := d.createElement "g"
  let d := (d.setAttribute group "class" instanceClass).setAttribute group "id" instanceId
  let body := (d.elementChildren svg).filter (isBody d)
  ((body.foldl (fun d c => d.appendChild group c) d).appendChild svg group, group)

/-- Make a drawing ready, from the `svg` element of its document on. -/
def ofDocument (settings : Settings) (d : Document) (svg : NodeId) : Template :=
  let (d, group) := gather (d.clean svg settings.repairs) svg
  let names := Binding.nameTable d svg
  let (d, bindings) := Binding.bindDrawing settings.families group d
  { document := d, instanceGroup := group, names, bindings
    instanceMarkup := d.innerMarkup group }

/-- Read a drawing and make it ready. -/
def ofText (settings : Settings) (text : String) : Except TemplateFault Template :=
  match Document.ofText? (Text.trimmed text) with
  | none => .error .malformed
  | some d =>
      match d.findFirst? d.root "svg" with
      | none => .error .missingRoot
      | some svg => .ok (ofDocument settings d svg)

/-- Run a step on every binding in order. -/
def run (step : Document → Binding → Document × Binding) (t : Template) : Template :=
  let (document, bindings) := Binding.runAll step t.document t.bindings
  { t with document, bindings }

/-- Apply a table to every binding. -/
def apply (table : Table) (t : Template) : Template :=
  t.run (Binding.apply table t.names)

/-- Let the clock go on for every binding; also whether any of them needs more frames. -/
def advance (now : Float) (t : Template) : Template × Bool :=
  let ((document, bindings), more) := Binding.advanceAll now t.document t.bindings
  ({ t with document, bindings }, more)

/-- A tick of the clock, without the wish for more frames. -/
def tick (now : Float) (t : Template) : Template :=
  (t.advance now).1

/-- Whether any binding moves something. -/
def isMoving (t : Template) : Bool :=
  t.bindings.any Binding.isMoving

theorem tick_eq_run (now : Float) (t : Template) : t.tick now = t.run (Binding.tick now) := by
  rw [tick, advance, Binding.advanceAll_eq]
  rfl

/-- More frames are needed as long as any binding moves something. -/
theorem advance_snd (now : Float) (t : Template) :
    (t.advance now).2 = (t.tick now).isMoving := by
  rw [tick, advance, Binding.advanceAll_eq]
  rfl

def markup (t : Template) : String := t.document.markup

end Template

end Infographic
