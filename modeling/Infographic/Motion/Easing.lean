/-
# Infographic.Motion.Easing -- easing a number from one value to another

An easing runs for a second by a clock of milliseconds that it is handed with every
frame.  It begins with the first frame after it was started, moves slowly at both ends,
and stops by itself.  Starting it again takes the place of what was running.
-/
import Infographic.Number.Scalar

namespace Infographic

set_option autoImplicit false

/-- A number that is eased, and the easing that runs or ran last. -/
structure Easing (α : Type) where
  /-- Where the easing set out from. -/
  source : α
  /-- Where it leads to. -/
  target : α
  current : α
  /-- The clock at the first frame. -/
  began : Option α
  active : Bool
  deriving Repr, DecidableEq

namespace Easing

variable {α : Type} [Scalar α]

open Scalar (whole below isNaN clampUnit)

/-- How long an easing takes. -/
def duration : α := whole 1000

/-- The part of the way done after a part of the time: a cubic curve for the first half,
and the same curve backwards for the second. -/
def curve (x : α) : α :=
  let x := clampUnit x
  if below x (whole 1 / whole 2) then whole 4 * x * x * x
  else
    let rest := -whole 2 * x + whole 2
    whole 1 - rest * rest * rest / whole 2

/-- A number at rest. -/
def atRest : Easing α :=
  ⟨whole 0, whole 0, whole 0, none, false⟩

/-- Start to ease from one value to another. -/
def start (source target : α) : Easing α :=
  { source, target, current := source, began := none, active := true }

/-- Start to ease from the current value. -/
def retarget (e : Easing α) (target : α) : Easing α :=
  start e.current target

/-- Let the clock go on to `now`: the easing behind that, the value of this frame while the
easing runs, and whether more frames are needed. -/
def advance (now : α) (e : Easing α) : (Easing α × Option α) × Bool :=
  if e.active then
    let began := e.began.getD now
    let elapsed := clampUnit ((now - began) / duration)
    let current := e.source + (e.target - e.source) * curve elapsed
    let active := below elapsed (whole 1) || isNaN elapsed
    (({ e with current, began := some began, active }, some current), active)
  else ((e, none), false)

/-- A tick of the clock, without the wish for more frames. -/
def tick (now : α) (e : Easing α) : Easing α × Option α :=
  (e.advance now).1

variable {e : Easing α} {now : α}

theorem advance_of_still (still : e.active = false) : e.advance now = ((e, none), false) := by
  rw [advance, still, if_neg Bool.false_ne_true]

theorem tick_of_still (still : e.active = false) : e.tick now = (e, none) := by
  rw [tick, advance_of_still still]

/-- A running easing has a frame, which is its current value then. -/
theorem tick_of_active (running : e.active = true) :
    (e.tick now).2 = some (e.tick now).1.current := by
  rw [tick, advance, running, if_pos rfl]

/-- More frames are needed exactly while the easing runs. -/
theorem advance_snd (now : α) (e : Easing α) : (e.advance now).2 = (e.tick now).1.active := by
  rw [tick, advance]
  split
  · rfl
  · rename_i still
    exact (Bool.eq_false_iff.2 still).symm

/-- The clock starts no easing. -/
theorem active_of_tick (running : (e.tick now).1.active = true) : e.active = true := by
  cases active : e.active with
  | true => rfl
  | false =>
      rw [tick_of_still active, active] at running
      contradiction

end Easing

end Infographic
