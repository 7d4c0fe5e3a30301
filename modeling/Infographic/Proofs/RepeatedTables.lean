/-
# Infographic.Proofs.RepeatedTables -- a table that is applied twice is applied once

Applying a table sets the texts and then writes styles, each to a place of its own
(`Template.painted_eq`); the bindings it leaves behind would write the same again, and keep
their guides and easings (`TransformBinding.after_after`).  So a second time changes nothing
at all (`Template.apply_apply`), in whatever state a session is (`Session.apply_idempotent`).
-/
import Infographic.Proofs.Ticking

namespace Infographic

set_option autoImplicit false

open Markup (Document NodeId StyleWrite)
open Markup.Document (setTexts_setTexts unstyled_setTexts unstyled_putStyles attributes_setTexts
  ext_unstyled)

/-- Setting out again to the same place from where one just set out changes nothing. -/
theorem Easing.retarget_retarget {α : Type} [Scalar α] (e : Easing α) (target : α) :
    (e.retarget target).retarget target = e.retarget target :=
  rfl

namespace Binding

/-! ## Transforms -/

namespace TransformBinding

variable (b : TransformBinding) (d d' : Document) (names : NameTable) (table : Table)

/-- A table that drives no position leaves a binding as it is. -/
theorem after_of_not_seeks (idle : b.seeks table TransformKind.all = false) :
    b.after d names table = b := by
  have still (guide : Option Guide) : b.lead? guide table TransformKind.all = none := by
    rw [lead?, ite_eq_right_iff]
    intro _
    refine List.findSome?_eq_none_iff.2 fun kind member => ?_
    have undriven := List.any_eq_false.1 idle kind member
    by_cases position : kind.isPosition
    · have absent : b.value? table kind = none := by simpa [position] using undriven
      rw [if_pos position, absent, Option.map_none]
    · rw [if_neg position]
  rw [after, guideAfter, idle, still]
  rfl

/-- Behind a table that drives a position the guide was looked for. -/
theorem settled_after (sought : b.seeks table TransformKind.all = true) :
    (b.after d names table).settled d' names = b.settled d names := by
  have held : (b.after d names table).guide = b.settled d names := by
    rw [after, led, guideAfter, if_pos sought]
  rw [settled, held, settled, Option.map_map]
  exact congrFun (congrArg Option.map (funext fun g => g.settle_settle d d' names)) b.guide

/-- The same table leaves a binding as it left it the first time, with its guide and its
easing. -/
theorem after_after :
    (b.after d names table).after d' names table = b.after d names table := by
  let c := b.after d names table
  cases sought : b.seeks table TransformKind.all with
  | false =>
      rw [b.after_of_not_seeks d names table sought, b.after_of_not_seeks d' names table sought]
  | true =>
      have looked : c.settled d' names = b.settled d names := b.settled_after d d' names table sought
      have guide : c.guideAfter d' names table = b.guideAfter d names table := by
        have again : c.seeks table TransformKind.all = true := sought
        rw [guideAfter, if_pos again, looked, guideAfter, if_pos sought]
      have lead : c.lead? (c.settled d' names) table TransformKind.all =
          b.lead? (b.settled d names) table TransformKind.all := by
        rw [looked]
        rfl
      change c.after d' names table = c
      rw [after, guide, lead]
      change (b.led _ _).led _ _ = b.led _ _
      cases b.lead? (b.settled d names) table TransformKind.all with
      | none => rfl
      | some way => simp [led, Easing.retarget_retarget]

/-- The same table shows the transform that it showed the first time. -/
theorem shown?_after :
    (b.after d names table).shown? ((b.after d names table).settled d' names) table =
      b.shown? (b.settled d names) table := by
  cases sought : b.seeks table TransformKind.all with
  | false =>
      have written : b.written (b.settled d' names) table = b.written (b.settled d names) table :=
        b.written_of_not_seeks sought _
      rw [b.after_of_not_seeks d names table sought, shown?, shown?, written]
  | true =>
      rw [b.settled_after d d' names table sought]
      rfl

end TransformBinding

end Binding

/-! ## Drawings -/

namespace Template

open Binding

variable (t : Template) (table : Table)

/-- What a table writes to styles, once the texts are worded. -/
def writes : List StyleWrite :=
  (t.transforms.map fun b => b.write (t.worded table) t.names table) ++
    t.paints.flatMap fun b => b.writes table

variable {t}

theorem moved_eq (sound : t.Sound) :
    t.moved table =
      ((t.worded table).putStyles (t.transforms.map fun b => b.write (t.worded table) t.names table),
        t.transforms.map fun b => b.after (t.worded table) t.names table) := by
  refine TransformBinding.pass_eq (fun b member => ?_) sound.firm t.names table
  rw [(t.worded_frame table b.element).2]
  exact sound.slow b member

/-- Applying a table sets the texts and then writes the styles. -/
theorem painted_eq (sound : t.Sound) :
    t.painted table = (t.worded table).putStyles (t.writes table) := by
  rw [painted, moved_eq table sound, PaintBinding.foldl_apply_eq, writes, Document.putStyles,
    Document.putStyles, Document.putStyles, List.foldl_append]

theorem fits_of_mem_writes (sound : t.Sound) :
    ∀ w ∈ t.writes table, (t.worded table).Fits w := by
  intro w member
  rcases List.mem_append.1 member with moved | painted
  · obtain ⟨b, known, rfl⟩ := List.mem_map.1 moved
    refine TransformBinding.fits_write ?_ (sound.firm b known)
    rw [(t.worded_frame table b.element).2]
    exact sound.slow b known
  · obtain ⟨b, known, here⟩ := List.mem_flatMap.1 painted
    refine PaintBinding.fits_of_mem_writes ?_ here
    rw [(t.worded_frame table b.element).1]
    exact sound.painted b known

/-- Every value is written to a place of its own. -/
theorem nodup_writes (sound : t.Sound) : ((t.writes table).map StyleWrite.cell).Nodup := by
  rw [writes, List.map_append, List.nodup_append']
  refine ⟨TransformBinding.nodup_cells sound.apart _ _ _, PaintBinding.nodup_cells sound.alone table,
    ?_⟩
  intro cell first second
  obtain ⟨w, moved, rfl⟩ := List.mem_map.1 first
  obtain ⟨b, -, rfl⟩ := List.mem_map.1 moved
  obtain ⟨_, -, kind, -, property, -⟩ := PaintBinding.mem_cells second
  exact PaintKind.property_ne (q := "transform") (by decide) kind property

/-- The texts that a table worded are worded by it already. -/
theorem worded_apply (sound : t.Sound) :
    (t.apply table).worded table = (t.apply table).document := by
  have result := apply_eq table sound
  have document : (t.apply table).document = (t.worded table).putStyles (t.writes table) := by
    rw [result]
    exact painted_eq table sound
  have phrases : (t.apply table).phrases table = t.phrases table := by
    rw [Template.phrases, Template.phrases, (families_of (by rw [result])).1]
  have unstyled : (t.apply table).document.unstyled = (t.worded table).unstyled := by
    rw [document, unstyled_putStyles]
  refine ext_unstyled ?_ fun n => attributes_setTexts _ n
  rw [worded, unstyled_setTexts, unstyled, phrases, ← unstyled_setTexts, worded,
    setTexts_setTexts rfl]
  intro w member
  obtain ⟨b, known, rfl⟩ := List.mem_map.1 member
  exact sound.worded b known

/-- **A table that is applied twice is applied once.** -/
theorem apply_apply (sound : t.Sound) : (t.apply table).apply table = t.apply table := by
  let t' := t.apply table
  have result : t' = _ := apply_eq table sound
  have sound' : t'.Sound := sound.apply table
  obtain ⟨ws, ms, ps⟩ := families_of (t := t') (by rw [result])
  have document : t'.document = (t.worded table).putStyles (t.writes table) := by
    rw [result]
    exact painted_eq table sound
  have names : t'.names = t.names := by rw [result]
  have texts : t'.worded table = t'.document := worded_apply table sound
  rw [moved_eq table sound] at ms
  have writes : t'.writes table = t.writes table := by
    rw [Template.writes, Template.writes, ms, ps, names, List.map_map]
    refine congrArg (· ++ _) (List.map_congr_left fun b _ => ?_)
    have shown := b.shown?_after (t.worded table) (t'.worded table) t.names table
    rw [Function.comp_apply, TransformBinding.write, TransformBinding.write, shown]
    rfl
  have painted : t'.painted table = t'.document := by
    rw [painted_eq table sound', texts, writes, document]
    exact Document.putStyles_putStyles (fits_of_mem_writes table sound) (nodup_writes table sound)
  have moved : (t'.moved table).2 = t'.transforms := by
    rw [moved_eq table sound', ms, names]
    dsimp only
    rw [List.map_map]
    exact List.map_congr_left fun (b : TransformBinding) _ => b.after_after _ _ _ _
  have again : t'.apply table =
      { t' with
        document := t'.document
        bindings := t'.wordings.map .wording ++ t'.transforms.map .transform ++
          t'.paints.map .paint } := by
    rw [apply_eq table sound', painted, moved]
  rw [← sound'.families] at again
  exact again

end Template

/-! ## Sessions -/

namespace Session

/-- **Applying twice is applying once.**  Whatever has happened to a session, applying its
table once more right after it was applied changes nothing, and neither does a message that
comes a second time, as a record or as a text. -/
theorem apply_idempotent (settings : Settings) (events : List Event) :
    let s := (start settings).run events
    s.apply.apply = s.apply ∧ (∀ m, (s.receive m).receive m = s.receive m) ∧
      ∀ text, (s.step (.receiveText text)).step (.receiveText text) =
        s.step (.receiveText text) := by
  intro s
  have twice (table : Table) : (s.template.map (Template.apply table)).map (Template.apply table) =
      s.template.map (Template.apply table) := by
    cases held : s.template with
    | none => rfl
    | some t =>
        have sound := sound_run settings events held
        exact congrArg some (Template.apply_apply table sound)
  have received (m : Message) : (s.receive m).receive m = s.receive m := by
    cases cycle : s.lifecycle with
    | loading => simp [receive, cycle, tableOf]
    | ready => simp only [receive, cycle, tableOf, Session.apply, twice]
  refine ⟨?_, received, fun text => ?_⟩
  · simp only [Session.apply, twice]
  · rw [step_receiveText, step_receiveText]
    cases Message.ofJson? text with
    | none => rfl
    | some m => exact received m

end Session

end Infographic
