/-
# Infographic.Proofs.FiniteStyles -- when transforms and opacities are finite

What a table writes to a moved element begins with the element's own transform attribute, in every
session (`Template.sourced_run`).  So the numbers in all transforms and opacities that updates
write are known, and one of these texts has a word for a number that is not finite exactly if one
of its numbers is not finite (`Session.finite_styles`).  Such words are written: a value far outside
a narrow range is normalized to infinity.
-/
import Infographic.Proofs.EasedCarriers
import Infographic.Proofs.NormalizedRange
import Infographic.Proofs.Regrouping
import Infographic.Proofs.WrittenNumbers

namespace Infographic

set_option autoImplicit false

open Markup (Document NodeId)
open Markup.Document (Regrouped)

namespace Template

open Binding

/-- The base of every moved element is its own transform attribute. -/
def Sourced (t : Template) : Prop :=
  ∀ b ∈ t.transforms, b.baseFragments = (b.ownMaps t.document).map Matrix.toCss

theorem ownMaps_congr {b : TransformBinding} {d d' : Document}
    (same : ∀ n, d'.attribute? n "transform" = d.attribute? n "transform") :
    b.ownMaps d' = b.ownMaps d := by
  rw [TransformBinding.ownMaps, TransformBinding.ownMaps, same]

theorem sourced_ofDocument (settings : Settings) {d : Document} {svg : NodeId}
    (whole : d.WellFormed) (inside : svg < d.nodeCount) : (ofDocument settings d svg).Sourced := by
  let start := (boundTexts settings d svg).1
  let moved := (boundTransforms settings d svg).1
  let root := (gathered settings d svg).2
  have whole₁ : start.WellFormed := wellFormed_boundTexts settings whole inside
  obtain ⟨-, elements⟩ := TransformBinding.asked_elements whole₁ settings.families.transforms root
  have bound : boundTransforms settings d svg = bindAll TransformBinding.bind start _ :=
    bindFamily_eq settings.families.transforms TransformBinding.eligible root start
  have painted : boundPaint settings d svg = bindAll PaintBinding.bind moved _ :=
    bindFamily_eq settings.families.paint PaintBinding.eligible root moved
  -- binding writes other attributes only
  obtain ⟨⟨-, -, same⟩, made⟩ := bindAll_spec
    (I := fun d' => d'.WellFormed ∧ start.nodeCount ≤ d'.nodeCount ∧
      ∀ n, d'.attribute? n "transform" = start.attribute? n "transform")
    (P := fun b : TransformBinding => b.baseFragments = (b.ownMaps start).map Matrix.toCss)
    (fun d' kept id member => by
      obtain ⟨whole', grown, same⟩ := kept
      have below := Nat.lt_of_lt_of_le (Document.lt_of_isElement (elements id member)) grown
      obtain ⟨whole'', grown', -⟩ := TransformBinding.bind_frame whole' below
      have regrouped : Regrouped d' (TransformBinding.bind d' id).1 :=
        TransformBinding.grouping_regrouped.bind whole' below
      refine ⟨⟨whole'', Nat.le_trans grown grown', fun n => ?_⟩, ?_⟩
      · rw [regrouped.attribute? n "transform" (by decide), same]
      · rw [← ownMaps_congr same]
        rfl)
    (⟨whole₁, Nat.le_refl _, fun _ => rfl⟩ : start.WellFormed ∧ _)
  have last (n : NodeId) :
      (boundPaint settings d svg).1.attribute? n "transform" = moved.attribute? n "transform" := by
    rw [painted]
    exact bindAll_induct
      (I := fun d' => d'.attribute? n "transform" = moved.attribute? n "transform")
      (fun d' kept id _ => (PaintBinding.attribute?_bind (by decide)).trans kept) rfl
  intro b member
  rw [(families_of (ofDocument_bindings settings d svg)).2.1, bound] at member
  rw [made b member, ofDocument_document, ownMaps_congr fun n => ?_]
  exact ((last n).trans
    ((congrArg (fun made => made.1.attribute? n "transform") bound).trans (same n))).symm

variable {t t' : Template}

/-- An update writes no transform attribute. -/
theorem Updated.attribute?_transform (updated : t.Updated t') (n : NodeId) :
    t'.document.attribute? n "transform" = t.document.attribute? n "transform" := by
  have attribute? (d : Document) : d.attribute? n "transform" =
      (((d.attributes n).filter fun a => a.1 != "style").find? fun a => a.1 == "transform").map
        Prod.snd := by
    rw [Document.attribute?, List.find?_filter]
    congr 2
    funext a
    by_cases named : a.1 = "transform" <;> simp [named]
  rw [attribute?, attribute?, updated.document.unstyled]

theorem Sourced.of_moved {guide : TransformBinding → Option Guide} (sourced : t.Sourced)
    (updated : t.Updated t')
    (moved : List.Forall₂ (TransformBinding.Moved guide) t.transforms t'.transforms) :
    t'.Sourced := by
  intro b' member
  obtain ⟨b, known, easing, followed, rfl⟩ := (TransformBinding.Moved.mem moved).2 b' member
  have base := sourced b known
  rw [← ownMaps_congr updated.attribute?_transform] at base
  exact base

/-- The base of every moved element in a session is its own transform attribute. -/
theorem sourced_run (settings : Settings) (events : List Session.Event)
    (held : ((Session.start settings).run events).template = some t) : t.Sourced := by
  have both : t.Legible ∧ t.Sourced := by
    refine Session.template_run (P := fun t => t.Legible ∧ t.Sourced) ?_ ?_ ?_ events t held
    · intro text t made
      obtain ⟨d, svg, whole, inside, rfl, -⟩ := ofText_eq_ok made
      exact ⟨(captured_ofDocument settings whole inside).1,
        sourced_ofDocument settings whole inside⟩
    · rintro t table ⟨legible, sourced⟩
      refine ⟨(legible.apply table).1, sourced.of_moved
        ((Updated.refl t).apply legible legible table) (after_one legible.toSound table).transforms⟩
    · rintro t now ⟨legible, sourced⟩
      obtain ⟨-, -, moved⟩ := TransformBinding.pass_tick_frame now t.document t.transforms
      have transforms : (t.tick now).transforms =
          (pass (fun d b => b.tick now d) t.document t.transforms).2 :=
        (families_of (by rw [tick_eq now legible.toSound])).2.1
      rw [← transforms] at moved
      exact ⟨(legible.tick now).1, sourced.of_moved ((Updated.refl t).tick legible now) moved⟩
  exact both.2

/-! ## What updates write -/

/-- The transforms and opacities that a table writes, and when one of them has a word for a number
that is not finite. -/
structure TableStyles (t : Template) (table : Table) (t' : Template) : Prop where
  transform : ∀ b ∈ t.transforms,
    t'.document.style? b.element "transform" = b.shown? (t.guideAfter [table] b) table
  unreal_transform : ∀ b ∈ t.transforms, ∀ text,
    b.shown? (t.guideAfter [table] b) table = some text →
      (Unreal text.toList ↔
        ∃ x ∈ b.numbers (b.ownMaps t.document) (t.guideAfter [table] b) table, x.isFinite = false)
  opacity : ∀ b ∈ t.paints, ∀ x, b.value? table .alpha = some x → ∃ text,
    t'.document.style? b.element "opacity" = some text ∧
      (Unreal text.toList ↔ (b.alpha * x).isFinite = false)
  /-- A value in the range of its column drives with a finite number exactly if its distance from
  the least value is finite. -/
  driven : ∀ reference c stats x v, table.referred? reference = some c → c.stats = some stats →
    (table.get? 0 (.name c.name)).bind Cell.number? = some x → stats.min ≤ x → x ≤ stats.max →
    table.normalized? reference = some v → v.isFinite = (x - stats.min).isFinite
  /-- No other transform is written. -/
  kept_transform : ∀ n, (∀ b ∈ t.transforms, b.element ≠ n) →
    t'.document.style? n "transform" = t.document.style? n "transform"
  /-- No other opacity is written. -/
  kept_opacity : ∀ n, (∀ b ∈ t.paints, b.element = n → b.value? table .alpha = none) →
    t'.document.style? n "opacity" = t.document.style? n "opacity"

/-- The transforms that a tick of the clock writes, and when one of them has a word for a number
that is not finite. -/
structure TickStyles (t : Template) (now : Float) (t' : Template) : Prop where
  transform : ∀ b ∈ t.transforms, b.easing.active = true → ∃ kind guide offset text,
    b.followed = some kind ∧ b.guide = some guide ∧
    guide.offset? (b.easing.tick now).1.current b.origin = some offset ∧
    t'.document.style? b.carrier "transform" = some text ∧
    (Unreal text.toList ↔ ∃ x ∈ kind.offsetNumbers offset, x.isFinite = false)
  /-- No other transform is written. -/
  kept_transform : ∀ n, (∀ b ∈ t.transforms, b.easing.active = true → b.carrier ≠ n) →
    t'.document.style? n "transform" = t.document.style? n "transform"
  /-- No opacity is written. -/
  kept_opacity : ∀ n, t'.document.style? n "opacity" = t.document.style? n "opacity"

theorem Sourced.tableStyles (sourced : t.Sourced) (sound : t.Sound) (table : Table) :
    t.TableStyles table (t.apply table) := by
  have after : t.After [table] (t.apply table) := after_one sound table
  have opacity : ∀ b ∈ t.paints, (t.apply table).document.style? b.element "opacity" =
      (b.shown? table .alpha).or (t.document.style? b.element "opacity") := fun b member =>
    (after.paint b member .alpha).trans (t.paintAfter?_concat [] table b .alpha)
  constructor
  case transform =>
    intro b member
    rw [after.transform b member]
    exact t.transformAfter?_concat [] table b
  case unreal_transform =>
    exact fun b member text shown => TransformBinding.unreal_shown?_iff (sourced b member) shown
  case opacity =>
    intro b member x driven
    have shown : b.shown? table .alpha = some (Number.plainText (b.alpha * x)) := by
      rw [PaintBinding.shown?, driven]
      rfl
    refine ⟨_, by rw [opacity b member, shown, Option.some_or], ?_⟩
    rw [Number.plainText, String.toList_ofList, (Shows.number (b.alpha * x)).unreal_iff]
    simp
  case driven =>
    exact fun reference c stats x v referred known cell above below normalized =>
      Table.isFinite_of_normalized? referred known cell above below normalized
  case kept_transform =>
    exact fun n other => after.kept n "transform" (fun _ => other) fun _ _ _ =>
      PaintKind.property_ne (by decide)
  case kept_opacity =>
    intro n idle
    by_cases painted : ∃ b ∈ t.paints, b.element = n
    · obtain ⟨b, member, rfl⟩ := painted
      rw [opacity b member, PaintBinding.shown?, idle b member rfl, Option.map_none, Option.none_or]
    · exact after.kept n "opacity" (by simp) fun b member here => absurd ⟨b, member, here⟩ painted

theorem Steered.tickStyles (steered : t.Steered) (now : Float) : t.TickStyles now (t.tick now) := by
  have clocked := steered.clocked_tick now
  constructor
  case transform =>
    intro b member running
    obtain ⟨kind, guide, offset, followed, held, -, place, written⟩ :=
      clocked.frames b member running
    exact ⟨kind, guide, offset, _, followed, held, place, written,
      (kind.shows_offsetFragment offset).unreal_iff⟩
  case kept_transform =>
    intro n other
    refine Document.style?_congr ?_ _
    rw [Document.attribute?, Document.attribute?, clocked.attributes n other]
  case kept_opacity => exact fun n => clocked.styles n "opacity" (by decide)

end Template

/-! ## Sessions -/

namespace Session

/-- **When written transforms and opacities are finite.**  In every session that can be reached,
whatever table is applied next: what is written to a moved element, the opacity of a painted
element and, at a tick of the clock, what is written to a carrier have a word for a number that is
not finite exactly if one of the numbers they show is not finite, and no other transform or opacity
is written. -/
theorem finite_styles (settings : Settings) (events : List Event) {t : Template}
    (held : ((start settings).run events).template = some t) (table : Table) (now : Float) :
    t.TableStyles table (t.apply table) ∧ t.TickStyles now (t.tick now) :=
  ⟨(Template.sourced_run settings events held).tableStyles (sound_run settings events held) table,
    (steered_run settings events held).tickStyles now⟩

/-- A bar that is scaled by a value. -/
def scaledDrawing : String :=
  "<svg><rect id=\"\x7b\x7bs:Value\x7d\x7d\" width=\"4\" height=\"4\"/></svg>"

/-- A message about one value, under a label. -/
def labelledMessage (x : Float) (label : String) : Message :=
  { version := "1", resultName := "values", rowCount := 1, availableRowCount := 1
    rows := [[some (.number x)]]
    columns := [⟨"bi1", label, .number, none, none, none⟩] }

/-- The theorem at this bar, for the greatest value of a range. -/
theorem finite_styles_greatest :
    let s := (start .default).run
      [.load scaledDrawing, .receive (labelledMessage 10 "Value \x7b\x7b0..10\x7d\x7d")]
    ∃ t, s.template = some t ∧ t.document.style? 1 "transform" = some "scale(1,1)" ∧
      t.TableStyles s.table (t.apply s.table) ∧ t.TickStyles 0 (t.tick 0) := by
  intro s
  have shown : s.template.map (fun t => t.document.style? 1 "transform") =
      some (some "scale(1,1)") := by
    decide +kernel
  obtain ⟨t, held, style⟩ := Option.map_eq_some_iff.1 shown
  obtain ⟨tables, ticks⟩ := finite_styles .default _ held s.table 0
  exact ⟨t, held, style, tables, ticks⟩

/-- Transforms are written with words for numbers that are not finite: the bar's value is finite
and so are its bounds, but it is too many times the upper one. -/
theorem not_finite_styles :
    ¬ ∀ (events : List Event) (t : Template) (n : NodeId) (text : String),
      ((start .default).run events).template = some t →
        t.document.style? n "transform" = some text → ¬Unreal text.toList := by
  intro finite
  have shown : ((start .default).run [.load scaledDrawing,
      .receive (labelledMessage 1e300 "Value \x7b\x7b0..1e-300\x7d\x7d")]).template.map
        (fun t => t.document.style? 1 "transform") = some (some "scale(Infinity,Infinity)") := by
    decide +kernel
  obtain ⟨t, held, style⟩ := Option.map_eq_some_iff.1 shown
  refine finite _ t 1 _ held style (.inr ⟨"scale(".toList, ",Infinity)".toList, ?_⟩)
  decide +kernel

end Session

end Infographic
