/-
# Infographic.Proofs.LatestMessage -- what earlier messages leave behind

Two histories of messages that end with the same one leave the same texts.  They leave the
same styles exactly where the paint that was given last is the same and the guides took the
same form (`Session.latest_message_wins`): a painted property that the latest message does
not drive keeps what an earlier message gave it, and a guide keeps the form it took with the
texts of the first message that drove a position.  All other styles are those of the
latest message.
-/
import Infographic.Proofs.SessionRuns
import Infographic.Proofs.TemplateRuns

namespace Infographic.Session

set_option autoImplicit false

open Markup (NodeId)

/-! ## What can be seen of a node -/

/-- The text of a node of the drawing. -/
def text? (s : Session) (n : NodeId) : Option String :=
  s.template.map fun t => t.document.text n

/-- An inline style property of a node of the drawing. -/
def style? (s : Session) (n : NodeId) (property : String) : Option String :=
  s.template.bind fun t => t.document.style? n property

/-! ## Messages only -/

variable {s : Session} {t : Template}

/-- Messages apply their tables, one after the other. -/
theorem run_receive (ready : s.lifecycle = .ready) (held : s.template = some t)
    (ms : List Message) :
    (s.run (ms.map .receive)).template = some (t.applyAll (ms.map s.tableOf)) := by
  induction ms generalizing s t with
  | nil => exact held
  | cons m rest ih =>
      have taken : s.receive m =
          { s with
            resultName := m.resultName
            table := s.tableOf m
            template := some (t.apply (s.tableOf m)) } := by
        simp only [receive, ready, apply, held, Option.map_some]
      have later := ih (s := s.receive m) (t := t.apply (s.tableOf m)) (by rw [taken, ready])
        (by rw [taken])
      have same : (s.receive m).tableOf = s.tableOf := by
        funext m'
        rw [tableOf, tableOf, receive_settings]
      rw [same] at later
      exact later

/-- A drawing that was loaded is ready. -/
theorem step_load_ready {text : String} (usable : (Event.load text).loads s.settings = true) :
    (s.step (.load text)).lifecycle = .ready ∧
      ∃ t, (s.step (.load text)).template = some t ∧ t.Sound := by
  obtain ⟨t, made, adopted⟩ := step_load_of_loads usable
  have sound := Template.sound_ofText made
  rw [adopted, adopt]
  cases s.pending with
  | true => exact ⟨rfl, _, rfl, sound.apply _⟩
  | false => exact ⟨rfl, t, rfl, sound⟩

/-! ## Two histories -/

/-- **The latest message wins, up to the paint that it does not drive and the guides that were
found before.**  After a drawing was loaded, two histories of messages that end with the same
one leave the same texts, those of that message.  A style property is the same after both exactly
where the paint that was given last is the same, and the guides, each in the form it took with
the first message that drove a position, make the latest message show the same transform. -/
theorem latest_message_wins {s : Session} {text : String}
    (usable : (Event.load text).loads s.settings = true) (ms ns : List Message) (m : Message) :
    let loaded := s.step (.load text)
    let first := loaded.run ((ms ++ [m]).map .receive)
    let second := loaded.run ((ns ++ [m]).map .receive)
    let tables := fun history : List Message => (history ++ [m]).map loaded.tableOf
    ∃ t, loaded.template = some t ∧
      (∀ n, first.text? n = second.text? n ∧
        second.text? n = some ((t.worded (loaded.tableOf m)).text n)) ∧
      ∀ n property, first.style? n property = second.style? n property ↔
        (∀ b ∈ t.paints, ∀ kind, b.element = n → kind.property = property →
          t.paintAfter? (tables ms) b kind = t.paintAfter? (tables ns) b kind) ∧
        (∀ b ∈ t.transforms, b.element = n → property = "transform" →
          b.shown? (t.guideAfter (tables ms) b) (loaded.tableOf m) =
            b.shown? (t.guideAfter (tables ns) b) (loaded.tableOf m)) := by
  intro loaded first second tables
  obtain ⟨ready, t, held, sound⟩ := step_load_ready usable
  have ends (history : List Message) :
      tables history = history.map loaded.tableOf ++ [loaded.tableOf m] := by
    simp [tables]
  have one : first.template = some (t.applyAll (tables ms)) := run_receive ready held (ms ++ [m])
  have two : second.template = some (t.applyAll (tables ns)) := run_receive ready held (ns ++ [m])
  have left := Template.after_applyAll sound (tables ms)
  have right := Template.after_applyAll sound (tables ns)
  rw [ends] at left right
  refine ⟨t, held, fun n => ?_, fun n property => ?_⟩
  · rw [text?, text?, one, two, Option.map_some, Option.map_some, ends, ends, left.text_of_last,
      right.text_of_last]
    exact ⟨rfl, rfl⟩
  · rw [style?, style?, one, two, Option.bind_some, Option.bind_some, ends, ends]
    exact Template.style?_of_last_iff left right n property

/-- A drawing with a text about a region and a bar that is filled by a value. -/
def barDrawing : String :=
  "<svg><text>\x7b\x7bRegion\x7d\x7d</text><rect id=\"\x7b\x7bf:Value\x7d\x7d\" width=\"4\"/></svg>"

theorem barDrawing_loads : (Event.load barDrawing).loads (start .default).settings = true := by
  decide +kernel

/-- A message about one value. -/
def valueMessage : Message :=
  { version := "1", resultName := "values", rowCount := 1, availableRowCount := 1
    rows := [[some (.number 5)]]
    columns := [⟨"bi1", "Value", .number, none, none, none⟩] }

/-- The theorem at a message about a value before one about a region. -/
theorem latest_message_wins_bar :
    let loaded := (start .default).step (.load barDrawing)
    let first := loaded.run ([valueMessage, regionMessage "South"].map .receive)
    let second := loaded.run ([regionMessage "South"].map .receive)
    (Event.load barDrawing).loads (start .default).settings = true ∧
      (∀ n, first.text? n = second.text? n) ∧ first.text? 1 = some "South" := by
  intro loaded first second
  obtain ⟨t, -, texts, -⟩ :=
    latest_message_wins barDrawing_loads [valueMessage] [] (regionMessage "South")
  exact ⟨barDrawing_loads, fun n => (texts n).1, by decide +kernel⟩

/-- An earlier message can be seen in the paint, even where nothing is moved. -/
theorem not_latest_message_wins :
    ¬ ∀ (s : Session) (text : String), (Event.load text).loads s.settings = true →
      let loaded := s.step (.load text)
      (loaded.template.all fun t => t.transforms.isEmpty) = true →
        ∀ (ms ns : List Message) (m : Message) (n : NodeId) (property : String),
          (loaded.run ((ms ++ [m]).map .receive)).style? n property =
            (loaded.run ((ns ++ [m]).map .receive)).style? n property := by
  intro wins
  let loaded := (start .default).step (.load barDrawing)
  have still : (loaded.template.all fun t => t.transforms.isEmpty) = true := by decide +kernel
  have filled : (loaded.run ([valueMessage, regionMessage "South"].map .receive)).style? 3 "fill" =
      some "#000000" := by decide +kernel
  have plain : (loaded.run ([regionMessage "South"].map .receive)).style? 3 "fill" = none := by
    decide +kernel
  have same := wins (start .default) barDrawing barDrawing_loads still [valueMessage] []
    (regionMessage "South") 3 "fill"
  exact absurd (filled.symm.trans (same.trans plain)) (by simp)

end Infographic.Session
