/-
# Infographic.Proofs.Ticking -- what the clock changes

A tick of the clock counts the easings on and moves the carriers of elements that follow a
curved guide.  It changes no text, no attribute but `style`, and no style but `transform`
(`TransformBinding.tick_frame`, `Template.tick_frame`), and it keeps a drawing ready for the
next table (`Template.Sound.tick`).  So every drawing that a session ever holds is ready for
one (`Session.sound_run`).
-/
import Infographic.Proofs.SessionRuns
import Infographic.Proofs.TemplateRuns

namespace Infographic

set_option autoImplicit false

open Markup (Document NodeId CleanDeclaration)
open Markup.Document (style?_setStyle unstyled_setStyle isElement_of_unstyled
  nodeCount_of_unstyled)

namespace Binding

/-! ## One element -/

namespace TransformBinding

/-- The clock moves a carrier and counts an easing on. -/
theorem tick_frame (now : Float) (d : Document) (b : TransformBinding) :
    (b.tick now d).1.unstyled = d.unstyled ∧
      (∀ n q, q ≠ "transform" → (b.tick now d).1.style? n q = d.style? n q) ∧
      Moved guide b (b.tick now d).2 := by
  obtain ⟨easing, same | ⟨kind, offset, written⟩⟩ := b.tick_cases now d
  · rw [same]
    exact ⟨rfl, fun _ _ _ => rfl, easing, b.followed, rfl⟩
  · rw [written]
    have clean : CleanDeclaration ("transform", kind.offsetFragment offset) :=
      ⟨cleanProperty_of_mem (by simp [writtenProperties]),
        (kind.firm_offsetFragment offset).cleanValue⟩
    refine ⟨unstyled_setStyle _ _, fun n q other => ?_, easing, b.followed, rfl⟩
    rw [style?_setStyle clean, if_neg fun all => other all.2.2]

end TransformBinding

/-! ## All elements -/

theorem TransformBinding.pass_tick_frame (now : Float) (d : Document)
    (bs : List TransformBinding) :
    let made := pass (fun d b => b.tick now d) d bs
    made.1.unstyled = d.unstyled ∧
      (∀ n q, q ≠ "transform" → made.1.style? n q = d.style? n q) ∧
      List.Forall₂ (Moved guide) bs made.2 := by
  induction bs generalizing d with
  | nil => exact ⟨rfl, fun _ _ _ => rfl, .nil⟩
  | cons b rest ih =>
      obtain ⟨unstyled, style, moved⟩ := b.tick_frame now d
      obtain ⟨unstyled', style', moved'⟩ := ih (b.tick now d).1
      exact ⟨unstyled'.trans unstyled,
        fun n q other => (style' n q other).trans (style n q other), .cons moved moved'⟩

end Binding

namespace Template

open Binding

variable {t : Template}

/-- The clock goes on for the moved elements only. -/
theorem tick_eq (now : Float) (sound : t.Sound) :
    let clocked := pass (fun d b => b.tick now d) t.document t.transforms
    t.tick now =
      { t with
        document := clocked.1
        bindings := t.wordings.map .wording ++ clocked.2.map .transform ++
          t.paints.map .paint } := by
  intro clocked
  let step := Binding.tick now
  have texts : runAll step t.document (t.wordings.map .wording) =
      (t.document, t.wordings.map .wording) := by
    rw [@runAll_map step _ .wording (fun d b => (d, b)) (fun _ _ => rfl), pass_eq_foldl]
    simp
  have moves : runAll step t.document (t.transforms.map .transform) =
      (clocked.1, clocked.2.map .transform) :=
    @runAll_map step _ .transform (fun d b => b.tick now d) (fun _ _ => rfl) _ _
  have paint : runAll step clocked.1 (t.paints.map .paint) = (clocked.1, t.paints.map .paint) := by
    rw [@runAll_map step _ .paint (fun d b => (d, b)) (fun _ _ => rfl), pass_eq_foldl]
    simp
  have whole : runAll step t.document t.bindings =
      (clocked.1, t.wordings.map .wording ++ clocked.2.map .transform ++
        t.paints.map .paint) := by
    rw [sound.families, runAll_append, runAll_append, texts, moves, paint]
  rw [tick_eq_run, run, whole]

/-- The clock keeps the texts, the attributes and all styles but transforms. -/
theorem tick_frame (now : Float) (sound : t.Sound) :
    (t.tick now).document.unstyled = t.document.unstyled ∧
      (∀ n q, q ≠ "transform" → (t.tick now).document.style? n q = t.document.style? n q) ∧
      (t.tick now).wordings = t.wordings ∧ (t.tick now).Sound := by
  obtain ⟨unstyled, style, moved⟩ :=
    TransformBinding.pass_tick_frame now t.document t.transforms
  have result := tick_eq now sound
  rw [result]
  refine ⟨unstyled, style, (families_of rfl).1, ?_⟩
  exact sound.of_moved rfl moved (Nat.le_of_eq (nodeCount_of_unstyled unstyled).symm)
    (fun n => style n _ (by decide)) (isElement_of_unstyled unstyled)

end Template

/-! ## Sessions -/

namespace Session

/-- Whether an event has a table applied, once a drawing is there. -/
def Event.applies : Event → Bool
  | .apply => true
  | e => e.message?.isSome

/-- What an event can do that brings no drawing. -/
inductive Change (s : Session) (e : Event) : Session → Prop where
  /-- Nothing at all. -/
  | still : e.applies = false → Change s e s
  /-- While there is no drawing a table can only be kept. -/
  | waiting {s' : Session} : s.lifecycle = .loading → s'.template = s.template → Change s e s'
  | applied {s' : Session} :
      s'.template = s.template.map (Template.apply s'.table) → Change s e s'
  | ticked (now : Float) : e.applies = false → Change s e (s.tick now)

theorem change_receive (s : Session) (e : Event) (m : Message) : s.Change e (s.receive m) := by
  unfold receive
  split <;> rename_i cycle
  · exact .applied rfl
  · exact .waiting cycle rfl

theorem receive_lifecycle (s : Session) (m : Message) :
    (s.receive m).lifecycle = s.lifecycle := by
  unfold receive
  split <;> rfl

/-- A drawing that cannot be used leaves the session as it is. -/
theorem step_load_of_refused {s : Session} {text : String}
    (refused : (Event.load text).loads s.settings = false) : s.step (.load text) = s := by
  cases made : Template.ofText s.settings text with
  | error fault => simp [step, load, made, Except.map, Except.toOption]
  | ok t => simp [Event.loads, made, Except.isOk, Except.toBool] at refused

/-- An event that brings no drawing keeps the settings and the lifecycle. -/
theorem step_of_refused {s : Session} {e : Event} (refused : e.loads s.settings = false) :
    (s.step e).settings = s.settings ∧ (s.step e).lifecycle = s.lifecycle ∧
      s.Change e (s.step e) := by
  cases e with
  | load text =>
      rw [step_load_of_refused refused]
      exact ⟨rfl, rfl, .still rfl⟩
  | receive m => exact ⟨receive_settings m, receive_lifecycle s m, change_receive s _ m⟩
  | receiveText text =>
      rw [step_receiveText]
      cases read : Message.ofJson? text with
      | none => exact ⟨rfl, rfl, .still (by simp [Event.applies, Event.message?, read])⟩
      | some m => exact ⟨receive_settings m, receive_lifecycle s m, change_receive s _ m⟩
  | apply => exact ⟨rfl, rfl, .applied rfl⟩
  | tick now => exact ⟨rfl, rfl, .ticked now rfl⟩
  | redraw => exact ⟨rfl, rfl, .still rfl⟩

/-- A drawing that was just brought is there as it was made ready, or with the table that was
waiting applied to it. -/
theorem adopt_template (s : Session) (t : Template) :
    (s.adopt t).template = some t ∨ (s.adopt t).template = some (t.apply s.table) := by
  unfold adopt
  split
  · exact .inr rfl
  · exact .inl rfl

/-- What holds of every drawing that is made ready, and is kept by tables and by the clock,
holds of the drawing of every session. -/
theorem template_run {settings : Settings} {P : Template → Prop}
    (made : ∀ text t, Template.ofText settings text = .ok t → P t)
    (applied : ∀ t table, P t → P (t.apply table)) (ticked : ∀ t now, P t → P (t.tick now))
    (events : List Event) :
    ∀ t, ((start settings).run events).template = some t → P t := by
  induction events using List.reverseRecOn with
  | nil => simp [run, start]
  | append_singleton events e ih =>
      let s := (start settings).run events
      have same : s.settings = settings := (holds_run settings events).same
      rw [run_concat]
      intro t held
      cases usable : e.loads s.settings with
      | true =>
          cases e with
          | load text =>
              obtain ⟨fresh, read, adopted⟩ := step_load_of_loads usable
              have holds : P fresh := made text fresh (same ▸ read)
              rw [adopted] at held
              rcases adopt_template s fresh with here | here <;> rw [here] at held <;>
                obtain rfl := Option.some.inj held
              · exact holds
              · exact applied fresh _ holds
          | _ => simp [Event.loads] at usable
      | false =>
          obtain ⟨-, -, change⟩ := step_of_refused usable
          generalize s.step e = s' at change held
          cases change with
          | still _ => exact ih t held
          | waiting _ kept => exact ih t (kept ▸ held)
          | applied new =>
              obtain ⟨before, here, rfl⟩ := Option.map_eq_some_iff.1 (new ▸ held)
              exact applied before _ (ih before here)
          | ticked now _ =>
              obtain ⟨before, here, rfl⟩ := Option.map_eq_some_iff.1 (s.tick_template now ▸ held)
              exact ticked before now (ih before here)

/-- The drawing of every session is ready for a table. -/
theorem sound_run (settings : Settings) (events : List Event) {t : Template}
    (held : ((start settings).run events).template = some t) : t.Sound :=
  template_run (fun _ _ => Template.sound_ofText) (fun _ table sound => sound.apply table)
    (fun _ now sound => (Template.tick_frame now sound).2.2.2) events t held

end Session

end Infographic
