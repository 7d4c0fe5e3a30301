/-
# Infographic.Proofs.SessionRuns -- what a session has become after any events

A session is told to load drawings, to take messages, to apply its table, to let the
clock go on and to draw again, in any order.  Of the events before the first drawing only
the latest message is left behind (`Session.run_of_unloaded`), so the drawing finds the
session that a late message would have made (`Session.load_after_messages`).  A drawing
that takes the place of another one finds the table, but does not show it before the table
is applied again (`Session.reload_keeps_table`).
-/
import Infographic.Session.Basic
import Mathlib.Data.List.Induction

namespace Infographic.Session

set_option autoImplicit false

/-! ## Events -/

/-- What can happen to a session. -/
inductive Event where
  | load (text : String)
  | receive (m : Message)
  | receiveText (text : String)
  | apply
  | tick (now : Float)
  | redraw

/-- The session after an event.  A drawing that cannot be loaded and a message that cannot
be read leave it as it is. -/
def step (s : Session) : Event → Session
  | .load text => ((s.load text).toOption.map Prod.fst).getD s
  | .receive m => s.receive m
  | .receiveText text => (s.receiveText? text).getD s
  | .apply => s.apply
  | .tick now => s.tick now
  | .redraw => s.redraw

/-- The session after some events. -/
def run (s : Session) (events : List Event) : Session :=
  events.foldl step s

/-- The message that an event brings, if it can be read. -/
def Event.message? : Event → Option Message
  | .receive m => some m
  | .receiveText text => Message.ofJson? text
  | _ => none

/-- Whether an event brings a drawing that can be used. -/
def Event.loads (settings : Settings) : Event → Bool
  | .load text => (Template.ofText settings text).isOk
  | _ => false

/-- The latest message that some events bring. -/
def latest (events : List Event) : Option Message :=
  (events.filterMap Event.message?).getLast?

/-- A session that takes a message, if there is one. -/
def receiveAny (s : Session) (m : Option Message) : Session :=
  m.elim s s.receive

variable {settings : Settings} {s : Session}

theorem run_concat (s : Session) (events : List Event) (e : Event) :
    s.run (events ++ [e]) = (s.run events).step e := by
  simp [run]

theorem latest_concat (events : List Event) (e : Event) :
    latest (events ++ [e]) = e.message?.or (latest events) := by
  cases brought : e.message? <;> simp [latest, brought]

/-- A text is taken like the message it can be read as. -/
theorem step_receiveText (s : Session) (text : String) :
    s.step (.receiveText text) = s.receiveAny (Message.ofJson? text) := by
  cases read : Message.ofJson? text <;> simp [step, receiveText?, receiveAny, read]

/-! ## What every event keeps -/

@[simp] theorem apply_lifecycle : s.apply.lifecycle = s.lifecycle := rfl
@[simp] theorem apply_pending : s.apply.pending = s.pending := rfl

@[simp] theorem apply_template_isSome : s.apply.template.isSome = s.template.isSome := by
  simp [apply]

@[simp] theorem tick_lifecycle (now : Float) : (s.tick now).lifecycle = s.lifecycle := rfl

@[simp] theorem tick_template_isSome (now : Float) :
    (s.tick now).template.isSome = s.template.isSome := by
  simp [tick_template]

/-- Loading a drawing changes nothing or adopts it. -/
theorem step_load (s : Session) (text : String) :
    s.step (.load text) = s ∨ ∃ t, s.step (.load text) = s.adopt t := by
  cases made : Template.ofText s.settings text with
  | error fault => exact .inl (by simp [step, load, made, Except.map, Except.toOption])
  | ok t => exact .inr ⟨t, by simp [step, load, made, Except.map, Except.toOption]⟩

@[simp] theorem adopt_settings (t : Template) : (s.adopt t).settings = s.settings := by
  unfold adopt; split <;> rfl

@[simp] theorem adopt_table (t : Template) : (s.adopt t).table = s.table := by
  unfold adopt; split <;> rfl

@[simp] theorem adopt_resultName (t : Template) : (s.adopt t).resultName = s.resultName := by
  unfold adopt; split <;> rfl

@[simp] theorem receive_settings (m : Message) : (s.receive m).settings = s.settings := by
  unfold receive; split <;> rfl

@[simp] theorem receive_table (m : Message) : (s.receive m).table = s.tableOf m := by
  unfold receive; split <;> rfl

@[simp] theorem receive_resultName (m : Message) :
    (s.receive m).resultName = m.resultName := by
  unfold receive; split <;> rfl

/-- The session has the settings it started with, and the table and the result name of the
latest message. -/
structure Holds (s : Session) (settings : Settings) (last : Option Message) : Prop where
  same : s.settings = settings
  table : s.table = last.elim Table.empty (start settings).tableOf
  resultName : s.resultName = last.elim "" Message.resultName

theorem Holds.receiveAny {last : Option Message} (h : s.Holds settings last)
    (m : Option Message) : (s.receiveAny m).Holds settings (m.or last) := by
  cases m with
  | none => exact h
  | some m =>
      refine ⟨(receive_settings m).trans h.same, ?_, receive_resultName m⟩
      rw [Session.receiveAny, Option.elim_some, receive_table, tableOf, h.same]
      rfl

theorem Holds.step {last : Option Message} (h : s.Holds settings last) (e : Event) :
    (s.step e).Holds settings (e.message?.or last) := by
  cases e with
  | load text =>
      rcases step_load s text with same | ⟨t, adopted⟩
      · rw [same]; exact h
      · rw [adopted]
        exact ⟨(adopt_settings t).trans h.same, (adopt_table t).trans h.table,
          (adopt_resultName t).trans h.resultName⟩
  | receive m => exact h.receiveAny (some m)
  | receiveText text => rw [step_receiveText]; exact h.receiveAny _
  | apply => exact ⟨h.same, h.table, h.resultName⟩
  | tick now => exact ⟨h.same, h.table, h.resultName⟩
  | redraw => exact h

theorem holds_run (settings : Settings) (events : List Event) :
    ((start settings).run events).Holds settings (latest events) := by
  induction events using List.reverseRecOn with
  | nil => exact ⟨rfl, rfl, rfl⟩
  | append_singleton events e ih =>
      rw [run_concat, latest_concat]
      exact ih.step e

/-- The session is ready when it has a drawing, and only while it is loading a table can be
waiting. -/
structure Consistent (s : Session) : Prop where
  ready_iff : s.lifecycle = .ready ↔ s.template.isSome
  loading_of_pending : s.pending = true → s.lifecycle = .loading

theorem Consistent.adopt (s : Session) (t : Template) : (s.adopt t).Consistent := by
  unfold Session.adopt
  split <;> exact ⟨by simp, by simp⟩

theorem Consistent.receiveAny (h : s.Consistent) (m : Option Message) :
    (s.receiveAny m).Consistent := by
  obtain ⟨ready_iff, loading_of_pending⟩ := h
  cases m with
  | none => exact ⟨ready_iff, loading_of_pending⟩
  | some m =>
      simp only [Session.receiveAny, Option.elim_some, receive]
      split <;> rename_i cycle
      · exact ⟨by simpa [cycle] using ready_iff, by simpa [cycle] using loading_of_pending⟩
      · exact ⟨by simpa [cycle] using ready_iff, fun _ => cycle⟩

theorem Consistent.step (h : s.Consistent) (e : Event) : (s.step e).Consistent := by
  cases e with
  | load text =>
      rcases step_load s text with same | ⟨t, adopted⟩
      · rw [same]; exact h
      · rw [adopted]; exact .adopt s t
  | receive m => exact h.receiveAny (some m)
  | receiveText text => rw [step_receiveText]; exact h.receiveAny _
  | apply => exact ⟨by simpa [Session.step] using h.ready_iff, h.loading_of_pending⟩
  | tick now => exact ⟨by simpa [Session.step] using h.ready_iff, h.loading_of_pending⟩
  | redraw => exact h

theorem consistent_run (settings : Settings) (events : List Event) :
    ((start settings).run events).Consistent := by
  induction events using List.reverseRecOn with
  | nil => exact ⟨by simp [run, start], by simp [run, start]⟩
  | append_singleton events e ih =>
      rw [run_concat]
      exact ih.step e

/-! ## Before the first drawing -/

/-- While no drawing is there, an event leaves behind the message it brings, and no other
trace. -/
theorem step_of_unloaded {e : Event} (unloaded : e.loads settings = false)
    (last : Option Message) :
    ((start settings).receiveAny last).step e =
      (start settings).receiveAny (e.message?.or last) := by
  have again (m : Message) :
      ((start settings).receiveAny last).receive m = (start settings).receive m := by
    cases last <;> rfl
  cases e with
  | load text =>
      have same : ((start settings).receiveAny last).settings = settings := by
        cases last <;> rfl
      cases made : Template.ofText settings text with
      | error fault => simp [step, load, same, made, Except.map, Except.toOption, Event.message?]
      | ok t => simp [Event.loads, made, Except.isOk, Except.toBool] at unloaded
  | receive m => exact again m
  | receiveText text =>
      rw [step_receiveText, Event.message?]
      cases Message.ofJson? text with
      | none => rfl
      | some m => exact again m
  | apply => cases last <;> rfl
  | tick now => cases last <;> rfl
  | redraw => rfl

/-- Before the first drawing a session is one that has taken the latest message only. -/
theorem run_of_unloaded {events : List Event}
    (unloaded : ∀ e ∈ events, e.loads settings = false) :
    (start settings).run events = (start settings).receiveAny (latest events) := by
  induction events using List.reverseRecOn with
  | nil => rfl
  | append_singleton events e ih =>
      have before := ih fun e member => unloaded e (List.mem_append_left _ member)
      have here := unloaded e (by simp)
      rw [run_concat, before, step_of_unloaded here, latest_concat]

/-- A message that waits for the drawing is applied like one that comes right after it. -/
theorem load_receiveAny (settings : Settings) (m : Option Message) (text : String) :
    ((start settings).receiveAny m).load text =
      ((start settings).load text).map fun (fresh, n) => (fresh.receiveAny m, n) := by
  have same : ((start settings).receiveAny m).settings = (start settings).settings := by
    cases m <;> rfl
  have adopted (t : Template) : ((start settings).receiveAny m).adopt t =
      ((start settings).adopt t).receiveAny m := by
    cases m <;> rfl
  unfold load
  rw [same]
  cases Template.ofText (start settings).settings text with
  | error fault => rfl
  | ok t => simp only [Except.map, adopted]

/-- **Data before the drawing.**  A session has a drawing exactly when it is ready, and a
table waits only while it is loading.  Whatever happened before the first drawing, with
drawings and messages that were refused among it, the drawing finds the same session as a
drawing that was loaded first and then got the latest message only. -/
theorem load_after_messages (settings : Settings) (events : List Event) :
    let s := (start settings).run events
    (s.lifecycle = .ready ↔ s.template.isSome) ∧
      (s.pending = true → s.lifecycle = .loading) ∧
      ((∀ e ∈ events, e.loads settings = false) → ∀ text,
        s.load text = ((start settings).load text).map fun (fresh, n) =>
          (fresh.receiveAny (latest events), n)) := by
  intro s
  have consistent := consistent_run settings events
  refine ⟨consistent.ready_iff, consistent.loading_of_pending, fun unloaded text => ?_⟩
  rw [show s = (start settings).receiveAny (latest events) from run_of_unloaded unloaded]
  exact load_receiveAny settings _ text

/-- A drawing that shows a region. -/
def regionDrawing : String :=
  "<svg><text>\x7b\x7bRegion\x7d\x7d</text></svg>"

theorem regionDrawing_loads : (Event.load regionDrawing).loads .default = true := by
  decide +kernel

/-- A message about one region. -/
def regionMessage (region : String) : Message :=
  { version := "1", resultName := "regions", rowCount := 1, availableRowCount := 1
    rows := [[some (.text region)]]
    columns := [⟨"bi1", "Region", .string, none, none, none⟩] }

/-- The theorem at two messages and some refused events; the drawing shows the second
region. -/
theorem load_after_messages_south :
    let events : List Event := [.receive (regionMessage "North"), .load "<svg", .apply,
      .receive (regionMessage "South"), .receiveText "[1,", .load "<html/>", .tick 0]
    (∀ e ∈ events, e.loads .default = false) ∧
      ((start .default).run events).load regionDrawing =
        ((start .default).load regionDrawing).map (fun (fresh, n) =>
          (fresh.receive (regionMessage "South"), n)) ∧
      (((start .default).run events).step (.load regionDrawing)).markup =
        "<svg><g class=\"__instance__\" id=\"__instance_0001__\"><text>South</text></g></svg>" := by
  intro events
  have refused : ∀ e ∈ events, e.loads .default = false := by decide +kernel
  exact ⟨refused, (load_after_messages .default events).2.2 refused regionDrawing,
    by decide +kernel⟩

/-! ## A drawing in place of another one -/

/-- Without a waiting table a drawing is adopted as it is. -/
theorem adopt_of_not_pending (idle : s.pending = false) (t : Template) :
    s.adopt t = { s with lifecycle := .ready, template := some t, pending := false } := by
  simp [adopt, idle]

/-- A drawing that can be used is adopted. -/
theorem step_load_of_loads {text : String} (usable : (Event.load text).loads s.settings = true) :
    ∃ t, Template.ofText s.settings text = .ok t ∧ s.step (.load text) = s.adopt t := by
  cases made : Template.ofText s.settings text with
  | error fault => simp [Event.loads, made, Except.isOk, Except.toBool] at usable
  | ok t => exact ⟨t, rfl, by simp [step, load, made, Except.map, Except.toOption]⟩

/-- **A drawing in place of another one.**  It finds the table and the result name of the
latest message, and is otherwise as in a new session: the table is not applied to it.  As
soon as the table is applied, or a message comes, the session is the one that loaded the
drawing first and got the message then. -/
theorem reload_keeps_table {settings : Settings} {events : List Event} {m : Message}
    (brought : latest events = some m)
    (ready : ((start settings).run events).lifecycle = .ready) {text : String}
    (usable : (Event.load text).loads settings = true) :
    let s := (start settings).run (events ++ [.load text])
    let fresh := (start settings).run [.load text]
    s = { fresh with table := fresh.tableOf m, resultName := m.resultName } ∧
      s.markup = fresh.markup ∧
      s.apply = (start settings).run [.load text, .receive m] ∧
      ∀ next, s.receive next = fresh.receive next := by
  intro s fresh
  have holds := holds_run settings events
  rw [brought] at holds
  have idle : ((start settings).run events).pending = false := by
    by_contra waiting
    have loading := (consistent_run settings events).loading_of_pending (by simpa using waiting)
    exact absurd (ready.symm.trans loading) (by decide)
  obtain ⟨t, made, adopted⟩ :=
    step_load_of_loads (s := (start settings).run events) (by rw [holds.same]; exact usable)
  obtain ⟨t', made', first⟩ := step_load_of_loads (s := start settings) usable
  obtain rfl : t' = t := by
    rw [holds.same] at made
    exact Except.ok.inj (made'.symm.trans made)
  have s_eq : s = ((start settings).run events).adopt t' := by rw [← adopted, ← run_concat]
  have fresh_eq : fresh = (start settings).adopt t' := by
    rw [← first]
    simp only [fresh, run, List.foldl_cons, List.foldl_nil]
  have late : (start settings).run [.load text, .receive m] = fresh.receive m := by
    simp only [fresh, run, List.foldl_cons, List.foldl_nil, step]
  clear_value s fresh
  rw [adopt_of_not_pending idle, holds.same, holds.table, holds.resultName] at s_eq
  rw [adopt_of_not_pending (s := start settings) rfl] at fresh_eq
  subst s_eq fresh_eq
  exact ⟨rfl, rfl, late.symm, fun next => rfl⟩

/-- The theorem at a drawing that is loaded again. -/
theorem reload_keeps_table_south :
    let events : List Event := [.load regionDrawing, .receive (regionMessage "South")]
    latest events = some (regionMessage "South") ∧
      ((start .default).run events).lifecycle = .ready ∧
      (Event.load regionDrawing).loads .default = true ∧
      ((start .default).run (events ++ [.load regionDrawing])).apply =
        (start .default).run events := by
  intro events
  have ready : ((start .default).run events).lifecycle = .ready := by decide +kernel
  exact ⟨rfl, ready, regionDrawing_loads,
    (reload_keeps_table rfl ready regionDrawing_loads).2.2.1⟩

/-- A drawing in place of another one need not show the table of the latest message. -/
theorem not_reload_shows_table :
    ¬ ∀ (settings : Settings) (events : List Event) (m : Message),
      latest events = some m → ((start settings).run events).lifecycle = .ready →
        ∀ text, (Event.load text).loads settings = true →
          ((start settings).run (events ++ [.load text])).markup =
            ((start settings).run [.load text, .receive m]).markup := by
  intro shows
  let events : List Event := [.load regionDrawing, .receive (regionMessage "South")]
  have ready : ((start .default).run events).lifecycle = .ready := by decide +kernel
  have blank : ((start .default).run (events ++ [.load regionDrawing])).markup ≠
      ((start .default).run events).markup := by decide +kernel
  exact blank (shows .default events _ rfl ready regionDrawing regionDrawing_loads)

end Infographic.Session
