/-
# Infographic.Proofs.LastingTexts -- texts never build on one another

Binding keeps all texts, so the phrase of a bound text is the text that its element has in
the drawing that was made ready (`Template.captured_ofText`).  Applying a table gives every
bound element the phrase filled from the table, also where one of them lies inside another
(`Template.Legible.apply`); the clock keeps this (`Template.Legible.tick`), and where it holds
a table makes no more nodes.  So whatever happens after a drawing was loaded, its texts are
those of the phrases it was loaded with (`Session.texts_never_compound`).
-/
import Infographic.Proofs.Grouping
import Infographic.Proofs.LatestMessage
import Infographic.Proofs.TextContent
import Infographic.Proofs.Ticking

namespace Infographic

set_option autoImplicit false

open Markup (Document NodeId)
open Markup.Document (SameTree SameTexts WellFormed isElement_of_unstyled nodeCount_of_unstyled
  tells_setTexts nodeCount_setTexts)
open Binding

/-! ## Texts are captured -/

namespace Binding

/-- An element is aligned by its attributes. -/
theorem WordingBinding.sameTexts_bind (d : Document) (id : NodeId) :
    SameTexts d (WordingBinding.bind d id).1 := by
  change SameTexts d (align d id)
  unfold align
  split
  · exact (SameTexts.setAttribute _ _ _ _).trans (.setAttribute _ _ _ _)
  · exact .refl d

theorem WordingBinding.captured {d : Document} (links : d.Linked) (asked : Bool) (root : NodeId) :
    let made := bindFamily asked eligible WordingBinding.bind root d
    SameTexts d made.1 ∧ ∀ b ∈ made.2, b.phrase = d.text b.element := by
  rw [bindFamily_eq]
  refine bindAll_spec (fun d' same id member => ⟨same.trans (sameTexts_bind d' id), ?_⟩) (.refl d)
  refine same.text id (Document.lt_of_isElement ?_)
  split at member
  · exact isElement_of_eligible links member
  · simp at member

/-- Groups and attributes are no part of a text. -/
theorem TransformBinding.grouping_sameTexts : Grouping SameTexts where
  refl := .refl
  trans := .trans
  wrap whole below tag := .wrap whole below tag
  setAttribute d id _ _ _ := .setAttribute d id _ _
  removeAttribute d id _ _ := .removeAttribute d id _

theorem PaintBinding.sameTexts_family (d : Document) (asked : Bool) (root : NodeId) :
    SameTexts d (bindFamily asked eligible PaintBinding.bind root d).1 := by
  rw [bindFamily_eq]
  exact bindAll_induct (I := fun d' => SameTexts d d') (fun d' same id _ =>
    same.trans ((SameTexts.setAttribute d' id "style" _).trans (.setAttribute _ id "style" _)))
    (.refl d)

end Binding

namespace Template

variable {t : Template}

/-! ## Drawings whose texts can be worded -/

/-- What holds of the texts of every drawing that was made ready, too. -/
structure Legible (t : Template) : Prop extends Sound t where
  whole : t.document.WellFormed
  elements : ∀ b ∈ t.wordings, t.document.isElement b.element = true
  /-- An element that is bound twice has one phrase. -/
  agreed : ∀ b ∈ t.wordings, ∀ c ∈ t.wordings, b.element = c.element → b.phrase = c.phrase

/-- Every bound text is worded by a table. -/
def Reads (t : Template) (table : Table) : Prop :=
  ∀ b ∈ t.wordings, t.document.Tells b.element (Phrase.fill table b.phrase)

/-- Of a drawing that was made ready the phrases are the texts. -/
theorem captured_ofDocument (settings : Settings) {d : Document} {svg : NodeId}
    (whole : d.WellFormed) (inside : svg < d.nodeCount) :
    let t := ofDocument settings d svg
    t.Legible ∧ ∀ b ∈ t.wordings, b.phrase = t.document.text b.element := by
  intro t
  have whole₀ := wellFormed_gathered settings whole inside
  have whole₁ := wellFormed_boundTexts settings whole inside
  have whole₂ := wellFormed_boundTransforms settings whole inside
  have same := sameTree_boundPaint settings whole inside
  obtain ⟨-, elements⟩ := sameTree_boundTexts settings whole inside
  obtain ⟨texts₁, phrases⟩ := WordingBinding.captured whole₀.toLinked settings.families.wording
    (gathered settings d svg).2
  have texts : SameTexts (gathered settings d svg).1 t.document :=
    (texts₁.trans (TransformBinding.grouping_sameTexts.family whole₁ _ _)).trans
      (PaintBinding.sameTexts_family _ _ _)
  have bound : t.wordings = (boundTexts settings d svg).2 :=
    (families_of (ofDocument_bindings settings d svg)).1
  have captured : ∀ b ∈ t.wordings, b.phrase = t.document.text b.element := by
    intro b member
    rw [bound] at member
    rw [texts.text b.element (Document.lt_of_isElement (elements b member))]
    exact phrases b member
  have sound := sound_ofDocument settings whole inside
  refine ⟨⟨sound, same.wellFormed whole₂, fun b member => ?_, fun b first c second here => ?_⟩,
    captured⟩
  · rw [bound] at member
    have known := elements b member
    rw [texts.element b.element (Document.lt_of_isElement known), known]
  · rw [captured b first, captured c second, here]

/-- Every drawing that is read can be worded over and over. -/
theorem captured_ofText {settings : Settings} {text : String}
    (made : ofText settings text = .ok t) :
    t.Legible ∧ ∀ b ∈ t.wordings, b.phrase = t.document.text b.element := by
  obtain ⟨d, svg, whole, inside, rfl, -⟩ := ofText_eq_ok made
  exact captured_ofDocument settings whole inside

/-! ## Wording the texts -/

theorem phrases_forall {P : NodeId × String → Prop} {table : Table}
    (each : ∀ b ∈ t.wordings, P (b.element, Phrase.fill table b.phrase)) :
    ∀ w ∈ t.phrases table, P w := by
  intro w member
  obtain ⟨b, known, rfl⟩ := List.mem_map.1 member
  exact each b known

/-- A table words every bound text, and it can be worded again. -/
theorem Legible.tells_worded (legible : t.Legible) (table : Table) :
    (t.worded table).WellFormed ∧
      ∀ b ∈ t.wordings, (t.worded table).Tells b.element (Phrase.fill table b.phrase) := by
  have elements : ∀ w ∈ t.phrases table, t.document.isElement w.1 = true :=
    phrases_forall legible.elements
  obtain ⟨whole, told⟩ := tells_setTexts legible.whole elements
    (phrases_forall fun b first => phrases_forall fun c second here => by
      rw [legible.agreed b first c second here])
  exact ⟨whole, fun b member => told _ (List.mem_map_of_mem member)⟩

theorem Legible.apply (legible : t.Legible) (table : Table) :
    (t.apply table).Legible ∧ (t.apply table).wordings = t.wordings ∧
      (t.apply table).Reads table := by
  have result := apply_eq table legible.toSound
  have same : (t.apply table).wordings = t.wordings := (families_of (by rw [result])).1
  have document : (t.apply table).document = t.painted table := by rw [result]
  have unstyled := (painted_frame table legible.toSound).1
  obtain ⟨whole, told⟩ := legible.tells_worded table
  have reads : (t.apply table).Reads table := by
    intro b member
    rw [same] at member
    rw [document]
    exact (told b member).of_unstyled unstyled.symm
  refine ⟨⟨legible.toSound.apply table, ?_, fun b member => (reads b member).element, ?_⟩, same,
    reads⟩
  · rw [document]
    exact (SameTree.of_unstyled unstyled.symm).wellFormed whole
  · rw [same]
    exact legible.agreed

theorem Legible.tick (legible : t.Legible) (now : Float) :
    (t.tick now).Legible ∧ (t.tick now).wordings = t.wordings ∧
      (t.tick now).document.unstyled = t.document.unstyled := by
  obtain ⟨unstyled, -, same, sound⟩ := tick_frame now legible.toSound
  refine ⟨⟨sound, (SameTree.of_unstyled unstyled.symm).wellFormed legible.whole, ?_, ?_⟩, same,
    unstyled⟩
  · rw [same]
    intro b member
    rw [isElement_of_unstyled unstyled, legible.elements b member]
  · rw [same]
    exact legible.agreed

/-- Once the texts were worded a table makes no more nodes. -/
theorem Reads.nodeCount_apply {table : Table} (reads : t.Reads table) (sound : t.Sound)
    (next : Table) : (t.apply next).document.nodeCount = t.document.nodeCount := by
  have document : (t.apply next).document = t.painted next := by rw [apply_eq next sound]
  have settled : ∀ w ∈ t.phrases next, t.document.Settled w.1 :=
    phrases_forall fun b member => (reads b member).settled
  rw [document, nodeCount_of_unstyled (painted_frame next sound).1]
  exact nodeCount_setTexts settled

end Template

/-! ## Sessions -/

namespace Session

/-- The number of nodes of the drawing. -/
def nodeCount? (s : Session) : Option Nat :=
  s.template.map fun t => t.document.nodeCount

variable {s : Session} {ws : List WordingBinding} {n : Nat}

/-- A session is ready and has a drawing with some bound texts. -/
structure Carries (s : Session) (ws : List WordingBinding) (t : Template) : Prop where
  ready : s.lifecycle = .ready
  held : s.template = some t
  legible : t.Legible
  same : t.wordings = ws

variable {s : Session} {ws : List WordingBinding} {t : Template}

theorem carries_adopt {text : String} {fresh : Template}
    (made : Template.ofText s.settings text = .ok fresh) :
    ∃ t, (s.adopt fresh).Carries fresh.wordings t := by
  have legible := (Template.captured_ofText made).1
  have ready : (s.adopt fresh).lifecycle = .ready := by unfold adopt; split <;> rfl
  rcases adopt_template s fresh with held | held
  · exact ⟨fresh, ready, held, legible, rfl⟩
  · obtain ⟨legible', same, -⟩ := legible.apply s.table
    exact ⟨fresh.apply s.table, ready, held, legible', same⟩

/-- An event keeps the bound texts, and words them if it has a table applied.  Texts that are
those of the table stay so, and no node is made for them. -/
theorem Carries.step (carries : s.Carries ws t) {e : Event}
    (refused : e.loads s.settings = false) :
    ∃ t', (s.step e).Carries ws t' ∧ (e.applies = true → t'.Reads (s.step e).table) ∧
      (t.Reads s.table →
        t'.Reads (s.step e).table ∧ t'.document.nodeCount = t.document.nodeCount) := by
  obtain ⟨-, cycle, change⟩ := step_of_refused refused
  obtain ⟨ready, held, legible, rfl⟩ := carries
  generalize s.step e = s' at cycle change ⊢
  have ready' : s'.lifecycle = .ready := cycle.trans ready
  cases change with
  | still idle =>
      refine ⟨t, ⟨ready, held, legible, rfl⟩, fun applies => ?_, fun reads => ⟨reads, rfl⟩⟩
      simp [idle] at applies
  | waiting loading _ => exact absurd (ready.symm.trans loading) (by decide)
  | applied new =>
      obtain ⟨legible', same, reads'⟩ := legible.apply s'.table
      have held' : s'.template = some (t.apply s'.table) := by rw [new, held, Option.map_some]
      exact ⟨_, ⟨ready', held', legible', same⟩, fun _ => reads', fun reads =>
        ⟨reads', reads.nodeCount_apply legible.toSound _⟩⟩
  | ticked now idle =>
      obtain ⟨legible', same, unstyled⟩ := legible.tick now
      have held' : (s.tick now).template = some (t.tick now) := by
        rw [tick_template, held, Option.map_some]
      refine ⟨_, ⟨ready', held', legible', same⟩, fun applies => ?_, fun reads =>
        ⟨fun b member => ?_, nodeCount_of_unstyled unstyled⟩⟩
      · simp [idle] at applies
      · exact (reads b (same ▸ member)).of_unstyled unstyled.symm

theorem Carries.run (carries : s.Carries ws t) {events : List Event}
    (refused : ∀ e ∈ events, e.loads s.settings = false) :
    ∃ t', (s.run events).Carries ws t' ∧
      (t.Reads s.table →
        t'.Reads (s.run events).table ∧ t'.document.nodeCount = t.document.nodeCount) := by
  induction events generalizing s t with
  | nil => exact ⟨t, carries, fun reads => ⟨reads, rfl⟩⟩
  | cons e rest ih =>
      have here := refused e List.mem_cons_self
      obtain ⟨next, carries', -, reads'⟩ := carries.step here
      obtain ⟨last, carries'', reads''⟩ := ih carries' fun e' member => by
        rw [(step_of_refused here).1]
        exact refused e' (List.mem_cons_of_mem e member)
      refine ⟨last, carries'', fun reads => ?_⟩
      obtain ⟨reads₁, count₁⟩ := reads' reads
      obtain ⟨reads₂, count₂⟩ := reads'' reads₁
      exact ⟨reads₂, count₂.trans count₁⟩

theorem run_settings {events : List Event} (refused : ∀ e ∈ events, e.loads s.settings = false) :
    (s.run events).settings = s.settings := by
  induction events generalizing s with
  | nil => rfl
  | cons e rest ih =>
      have first := (step_of_refused (refused e List.mem_cons_self)).1
      refine (ih (s := s.step e) fun e' member => ?_).trans first
      rw [first]
      exact refused e' (List.mem_cons_of_mem e member)

/-- **Texts never build on one another.**  After a drawing was loaded its bound texts stay the
same, and the phrase of each is the text that its element had then.  Whatever events follow
that bring no other drawing, as soon as one of them has a table applied every bound text is
its phrase filled from the table the session has, and the drawing makes no more nodes. -/
theorem texts_never_compound {text : String} {fresh : Template}
    (made : Template.ofText s.settings text = .ok fresh) {before after : List Event} {e : Event}
    (refused : ∀ e' ∈ before ++ e :: after, e'.loads s.settings = false)
    (applies : e.applies = true) :
    let first := (s.step (.load text)).run (before ++ [e])
    let last := first.run after
    last.template.map Template.wordings = some fresh.wordings ∧
      (∀ b ∈ fresh.wordings, b.phrase = fresh.document.text b.element ∧
        last.text? b.element = some (Phrase.fill last.table b.phrase)) ∧
      ∃ n, first.nodeCount? = some n ∧ last.nodeCount? = some n := by
  intro first last
  let loaded := s.step (.load text)
  have adopted : loaded = s.adopt fresh := by
    simp [loaded, step, load, made, Except.map, Except.toOption]
  have settings : loaded.settings = s.settings := by rw [adopted, adopt_settings]
  have refused_first : ∀ e' ∈ before ++ [e], e'.loads loaded.settings = false := by
    intro e' member
    rw [settings]
    refine refused e' ?_
    rcases List.mem_append.1 member with earlier | here
    · exact List.mem_append_left _ earlier
    · simp [List.mem_singleton.1 here]
  have refused_before : ∀ e' ∈ before, e'.loads loaded.settings = false :=
    fun e' member => refused_first e' (List.mem_append_left _ member)
  have refused_here : e.loads (loaded.run before).settings = false := by
    rw [run_settings refused_before]
    exact refused_first e (by simp)
  have refused_after : ∀ e' ∈ after, e'.loads first.settings = false := by
    intro e' member
    rw [run_settings refused_first, settings]
    exact refused e' (by simp [member])
  -- The drawing after it was loaded, before the first table, behind it and in the end.
  obtain ⟨t₀, carries₀⟩ := carries_adopt made
  rw [← adopted] at carries₀
  obtain ⟨t₁, carries₁, -⟩ := carries₀.run refused_before
  obtain ⟨t₂, carries₂, reads₂, -⟩ := carries₁.step refused_here
  rw [← run_concat] at carries₂ reads₂
  obtain ⟨t₃, carries₃, kept⟩ := carries₂.run refused_after
  obtain ⟨reads₃, count⟩ := kept (reads₂ applies)
  refine ⟨?_, ?_, ?_⟩
  · rw [carries₃.held, Option.map_some, carries₃.same]
  · intro b member
    have told := reads₃ b (carries₃.same ▸ member)
    refine ⟨(Template.captured_ofText made).2 b member, ?_⟩
    rw [text?, carries₃.held, Option.map_some, told.text carries₃.legible.whole]
  · refine ⟨t₂.document.nodeCount, ?_, ?_⟩
    · rw [nodeCount?, carries₂.held, Option.map_some]
    · rw [nodeCount?, carries₃.held, Option.map_some, count]

/-- A drawing with a bound text inside another one. -/
def nestedDrawing : String :=
  "<svg><text><tspan>\x7b\x7bRegion\x7d\x7d: <text>\x7b\x7bRegion\x7d\x7d!</text></tspan>" ++
    "</text></svg>"

/-- The theorem at messages about regions whose names have a tag in them.  The last of them shows
its tag as it is and is not filled again. -/
theorem texts_never_compound_tag :
    let tag := "\x7b\x7bRegion\x7d\x7d"
    let region := tag ++ " of the South"
    let after : List Event :=
      [.apply, .receive (regionMessage "North"), .tick 0, .receive (regionMessage region)]
    let first := ((start .default).step (.load nestedDrawing)).run
      ([.tick 0] ++ [.receive (regionMessage tag)])
    let last := first.run after
    (∀ e ∈ [.tick 0] ++ Event.receive (regionMessage tag) :: after, e.loads .default = false) ∧
      (∃ fresh, Template.ofText .default nestedDrawing = .ok fresh ∧
        last.template.map Template.wordings = some fresh.wordings) ∧
      last.text? 2 = some (region ++ ": " ++ region ++ "!") ∧
      last.text? 4 = some (region ++ "!") ∧ first.nodeCount? = last.nodeCount? := by
  intro tag region after first last
  have usable : (Event.load nestedDrawing).loads (start .default).settings = true := by
    decide +kernel
  have refused : ∀ e ∈ [.tick 0] ++ Event.receive (regionMessage tag) :: after,
      e.loads .default = false := by decide +kernel
  obtain ⟨fresh, made, -⟩ := step_load_of_loads usable
  obtain ⟨same, -, n, one, two⟩ := texts_never_compound made refused rfl
  exact ⟨refused, ⟨fresh, made, same⟩, by decide +kernel, by decide +kernel, one.trans two.symm⟩

end Session

end Infographic
