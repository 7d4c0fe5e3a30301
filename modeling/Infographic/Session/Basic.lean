/-
# Infographic.Session.Basic -- a drawing and its data

A session holds one drawing and the latest table.  It is loading until a drawing is
ready; a table that arrives before is kept, and applied once as soon as the drawing is
there.  Later tables are applied as they arrive.
-/
import Infographic.Directive.StatsLabel
import Infographic.Message.Reader
import Infographic.Message.Table
import Infographic.Session.Template

namespace Infographic

set_option autoImplicit false

/-- Whether a drawing is there. -/
inductive Lifecycle where
  | loading
  | ready
  deriving Repr, DecidableEq

/-- One drawing, the latest table, and whether that is still to be applied. -/
structure Session where
  settings : Settings
  lifecycle : Lifecycle
  template : Option Template
  table : Table
  resultName : String
  pending : Bool

namespace Session

/-- A session without drawing and table. -/
def start (settings : Settings) : Session :=
  { settings, lifecycle := .loading, template := none, table := Table.empty, resultName := ""
    pending := false }

def isReady (s : Session) : Bool := s.lifecycle == .ready

/-- The bindings of the drawing. -/
def bindings (s : Session) : List Binding :=
  (s.template.map Template.bindings).getD []

/-! ## Steps -/

/-- Apply the table to the drawing. -/
def apply (s : Session) : Session :=
  { s with template := s.template.map (Template.apply s.table) }

/-- Take a drawing in place of the one there was, and apply a table that was kept. -/
def adopt (s : Session) (template : Template) : Session :=
  let next := { s with lifecycle := .ready, template := some template, pending := false }
  if s.pending then next.apply else next

/-- Load a drawing; the number of its bindings. -/
def load (s : Session) (text : String) : Except TemplateFault (Session × Nat) :=
  (Template.ofText s.settings text).map fun template =>
    (s.adopt template, template.bindings.length)

/-- The table of a message, with what its labels say about statistics. -/
def tableOf (s : Session) (m : Message) : Table :=
  (Table.ofMessage m s.settings.numberLocale).readLabels

/-- Take the table of a message, and apply it once a drawing is there. -/
def receive (s : Session) (m : Message) : Session :=
  let next := { s with resultName := m.resultName, table := s.tableOf m }
  match s.lifecycle with
  | .ready => next.apply
  | .loading => { next with pending := true }

/-- Take the table of a message text, if it can be read. -/
def receiveText? (s : Session) (text : String) : Option Session :=
  (Message.ofJson? text).map s.receive

/-- Let the clock go on to `now`, in milliseconds; also whether any binding needs more
frames. -/
def advance (s : Session) (now : Float) : Session × Bool :=
  let made := s.template.map (Template.advance now)
  ({ s with template := made.map Prod.fst }, made.any Prod.snd)

/-- A tick of the clock, without the wish for more frames. -/
def tick (s : Session) (now : Float) : Session :=
  (s.advance now).1

/-- Whether any binding moves something. -/
def isMoving (s : Session) : Bool :=
  s.template.any Template.isMoving

theorem tick_template (s : Session) (now : Float) :
    (s.tick now).template = s.template.map (Template.tick now) :=
  Option.map_map ..

theorem tick_eq (s : Session) (now : Float) :
    s.tick now = { s with template := s.template.map (Template.tick now) } :=
  congrArg (fun template => { s with template }) (s.tick_template now)

/-- More frames are needed as long as any binding moves something. -/
theorem advance_snd (s : Session) (now : Float) :
    (s.advance now).2 = (s.tick now).isMoving := by
  rw [isMoving, tick_template, advance, Option.any_map, Option.any_map]
  exact congrArg (s.template.any ·) (funext (Template.advance_snd now))

/-- A change of layout.  Drawings scale by themselves, so there is nothing to do. -/
def redraw (s : Session) : Session := s

/-! ## What can be seen -/

/-- The markup of the whole drawing. -/
def markup (s : Session) : String :=
  (s.template.map Template.markup).getD ""

/-- The body of the drawing as it was right after its bindings were made. -/
def instanceMarkup (s : Session) : String :=
  (s.template.map Template.instanceMarkup).getD ""

end Session

end Infographic
