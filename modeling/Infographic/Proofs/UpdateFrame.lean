/-
# Infographic.Proofs.UpdateFrame -- what updates leave alone

Tables and the clock set the texts of some elements and the styles of others.  Setting a text
replaces the children of its element and moves no node elsewhere (`Document.Framed.setText`);
writing a style changes one attribute (`Document.Framed.restyled`).  So however often the
drawing of a session is updated, only the children of bound texts and the styles of moved and
painted elements and of carriers are not those it was loaded with (`Session.updates_frame`).
-/
import Infographic.Proofs.LastingTexts
import Infographic.Proofs.RepeatedTables

namespace Infographic

set_option autoImplicit false

open Markup (Document NodeId StyleWrite)

namespace Markup.Document

/-! ## Documents with other texts and styles -/

/-- What has become of a document whose texts were set in some elements and whose styles were
written in others. -/
structure Framed (d : Document) (worded styled : NodeId → Prop) (d' : Document) : Prop where
  root : d'.root = d.root
  grown : d.nodeCount ≤ d'.nodeCount
  tag? : ∀ n, d'.tag? n = d.tag? n
  attributes : ∀ n, ¬ styled n → d'.attributes n = d.attributes n
  unstyled : ∀ n, (d'.attributes n).filter (fun a => a.1 != "style") =
    (d.attributes n).filter fun a => a.1 != "style"
  /-- An element whose text was set has this text as its only child. -/
  children : ∀ n, d'.children n = d.children n ∨
    worded n ∧ ∃ c, d'.children n = [c] ∧ d'.isText c = true
  /-- Other children that such an element had have no parent. -/
  parent? : ∀ n < d.nodeCount, d'.parent? n = d.parent? n ∨
    d'.parent? n = none ∧ ∃ w, worded w ∧ d.parent? n = some w
  text : ∀ n < d.nodeCount, d.isText n = true → d'.isText n = true ∧
    (d'.kind? n = d.kind? n ∨ ∃ w, worded w ∧ d.parent? n = some w)
  /-- A new node is the text of such an element. -/
  made : ∀ n, d.nodeCount ≤ n → n < d'.nodeCount →
    d'.isText n = true ∧ ∃ w, worded w ∧ d'.parent? n = some w

variable {d d' d'' : Document} {worded styled : NodeId → Prop} {w n : NodeId}

/-! ## Setting a text -/

theorem root_orphan (ids : List NodeId) : (d.orphan ids).root = d.root := by
  induction ids generalizing d with
  | nil => rfl
  | cons c rest ih => exact ih (d := d.setParent c none)

theorem root_lodge (d : Document) (w : NodeId) : (d.lodge w).root = d.root := by
  cases element : d.isElement w with
  | false => rw [lodge_of_plain element]
  | true =>
      cases kept : (d.children w).find? d.isText with
      | some c =>
          rw [lodge_of_kept element kept]
          exact root_orphan _
      | none =>
          rw [lodge_of_new element kept]
          exact root_orphan _

theorem tag?_lodge (d : Document) (w n : NodeId) : (d.lodge w).tag? n = d.tag? n := by
  by_cases old : n < d.nodeCount
  · exact tag?_congr (kind?_lodge old)
  · have plain : d.isElement n = false := not_isElement_of_le (Nat.le_of_not_lt old)
    have plain' : (d.lodge w).isElement n = false := by rw [isElement_lodge, plain]
    simp only [isElement, Option.isSome_eq_false_iff, Option.isNone_iff_eq_none] at plain plain'
    rw [plain, plain']

/-- Making room makes no node but the place of the text. -/
theorem lt_or_eq_slot_of_lt (element : d.isElement w = true) (inside : n < (d.lodge w).nodeCount) :
    n < d.nodeCount ∨ n = d.slot w := by
  rw [slot_of_element element]
  cases kept : (d.children w).find? d.isText with
  | some c =>
      rw [lodge_of_kept element kept] at inside
      exact .inl (by simpa using inside)
  | none =>
      rw [lodge_of_new element kept] at inside
      simp only [nodeCount_setChildren, nodeCount_setParent, nodeCount_create,
        nodeCount_orphan] at inside
      exact Nat.lt_succ_iff_lt_or_eq.1 inside

namespace Framed

theorem refl (d : Document) (worded styled : NodeId → Prop) : d.Framed worded styled d where
  root := rfl
  grown := Nat.le_refl _
  tag? _ := rfl
  attributes _ _ := rfl
  unstyled _ := rfl
  children _ := .inl rfl
  parent? _ _ := .inl rfl
  text _ _ text := ⟨text, .inl rfl⟩
  made _ new inside := absurd inside (Nat.not_lt_of_le new)

theorem isElement (framed : d.Framed worded styled d') (n : NodeId) :
    d'.isElement n = d.isElement n := by
  rw [Document.isElement, Document.isElement, framed.tag?]

/-- A child of an element whose text is set was a child of it from the start. -/
theorem parent?_of_old (framed : d.Framed worded styled d') (old : n < d.nodeCount)
    (up : d'.parent? n = some w) : d.parent? n = some w := by
  rcases framed.parent? n old with same | ⟨gone, -⟩
  · rw [← same, up]
  · simp [gone] at up

/-- Setting one more text. -/
theorem setText (framed : d.Framed worded styled d') (links : d.Linked) (links' : d'.Linked)
    (here : worded w) (element : d'.isElement w = true) (s : String) :
    d.Framed worded styled (d'.setText w s) := by
  obtain ⟨only, lodged⟩ := children_lodge element
  have same : SameTree (d'.lodge w) (d'.setText w s) := by
    rw [setText_eq]
    exact .write isElement_slot s
  have placed : (d'.setText w s).isText (d'.slot w) = true := by
    rw [setText_eq, isText_write isElement_slot, lodged]
  have kept {n : NodeId} (text : d'.isText n = true) : (d'.setText w s).isText n = true := by
    rw [setText_eq, isText_write isElement_slot, isText_lodge text]
  have parents (n : NodeId) := (same.parent? n).trans (links'.parent?_lodge element n)
  have up_slot (inside : d'.slot w < d'.nodeCount) : d'.parent? (d'.slot w) = some w :=
    (links'.slot_cases element).resolve_right (Nat.ne_of_lt inside)
  refine {
    root := by rw [same.root, root_lodge, framed.root]
    grown := ?_
    tag? := fun n => by rw [same.tag?, tag?_lodge, framed.tag?]
    attributes := fun n free => (attributes_setText w s n).trans (framed.attributes n free)
    unstyled := fun n => by rw [attributes_setText, framed.unstyled]
    children := fun n => ?_
    parent? := fun n old => ?_
    text := fun n old text => ?_
    made := fun n new inside => ?_ }
  · rw [same.nodeCount]
    exact Nat.le_trans framed.grown (le_nodeCount_lodge d' w)
  · rw [same.children]
    by_cases other : w = n
    · subst other
      exact .inr ⟨here, _, only, placed⟩
    · rw [children_lodge_of_ne other]
      rcases framed.children n with unchanged | ⟨set, c, single, text⟩
      · exact .inl unchanged
      · exact .inr ⟨set, c, single, kept text⟩
  · have inside := Nat.lt_of_lt_of_le old framed.grown
    rw [parents]
    split
    · rename_i place
      subst place
      exact .inl (framed.parent?_of_old old (up_slot inside)).symm
    · split
      · rename_i listed
        exact .inr ⟨rfl, w, here, framed.parent?_of_old old ((links'.mem_iff w n).1 listed)⟩
      · exact framed.parent? n old
  · have inside := Nat.lt_of_lt_of_le old framed.grown
    obtain ⟨still, cases⟩ := framed.text n old text
    refine ⟨kept still, ?_⟩
    by_cases place : n = d'.slot w
    · subst place
      exact .inr ⟨w, here, framed.parent?_of_old old (up_slot inside)⟩
    · rw [setText_eq, kind?_write, if_neg (Ne.symm place), kind?_lodge inside]
      exact cases
  · rw [same.nodeCount] at inside
    rw [parents]
    by_cases place : n = d'.slot w
    · subst place
      exact ⟨placed, w, here, if_pos rfl⟩
    · have before := (lt_or_eq_slot_of_lt element inside).resolve_right place
      obtain ⟨text, v, set, up⟩ := framed.made n new before
      refine ⟨kept text, v, set, ?_⟩
      rw [if_neg place, if_neg, up]
      -- A new text that is a child of the element is the only one, and so its place.
      intro listed
      rcases framed.children w with unchanged | ⟨-, c, single, text'⟩
      · rw [unchanged] at listed
        exact Nat.not_lt_of_le new (lt_of_parent? ((links.mem_iff w n).1 listed))
      · have settled : d'.Settled w := fun _ => ⟨c, single, text'⟩
        rw [slot_of_settled settled element, List.mem_singleton] at listed
        exact place listed

/-- Setting some texts. -/
theorem setTexts (framed : d.Framed worded styled d') (links : d.Linked) (whole : d'.WellFormed)
    {ws : List (NodeId × String)} (inside : ∀ v ∈ ws, worded v.1 ∧ d.isElement v.1 = true) :
    d.Framed worded styled (d'.setTexts ws) := by
  induction ws generalizing d' with
  | nil => exact framed
  | cons v rest ih =>
      obtain ⟨here, element⟩ := inside v List.mem_cons_self
      have next := framed.setText links whole.toLinked here
        (by rw [framed.isElement, element]) v.2
      exact ih next (whole.setText v.1 v.2) fun u member =>
        inside u (List.mem_cons_of_mem v member)

/-- Writing styles. -/
theorem restyled (framed : d.Framed worded styled d') (same : d''.unstyled = d'.unstyled)
    (attributes : ∀ n, ¬ styled n → d''.attributes n = d'.attributes n) :
    d.Framed worded styled d'' := by
  have tree : SameTree d' d'' := .of_unstyled same.symm
  have texts (n : NodeId) : d''.isText n = d'.isText n := by
    rw [← isText_unstyled, same, isText_unstyled]
  refine {
    root := tree.root.trans framed.root
    grown := tree.nodeCount ▸ framed.grown
    tag? := fun n => (tree.tag? n).trans (framed.tag? n)
    attributes := fun n free => (attributes n free).trans (framed.attributes n free)
    unstyled := fun n => by
      rw [← attributes_unstyled, same, attributes_unstyled, framed.unstyled]
    children := fun n => by
      simp only [tree.children, texts]
      exact framed.children n
    parent? := fun n old => by
      rw [tree.parent?]
      exact framed.parent? n old
    text := fun n old text => ?_
    made := fun n new inside => by
      rw [texts, tree.parent?]
      exact framed.made n new (tree.nodeCount ▸ inside) }
  obtain ⟨still, cases⟩ := framed.text n old text
  obtain ⟨s, kind⟩ := isText_iff.1 still
  rw [texts, text_of_unstyled same.symm kind, ← kind]
  exact ⟨still, cases⟩

end Framed

/-! ## Writing styles -/

theorem attributes_setStyle_of_ne {id : NodeId} (other : id ≠ n) (property value : String) :
    (d.setStyle id property value).attributes n = d.attributes n := by
  rw [setStyle, setAttribute, attributes_modifyAttributes, if_neg fun both => other both.1]

theorem attributes_removeStyle_of_ne {id : NodeId} (other : id ≠ n) (property : String) :
    (d.removeStyle id property).attributes n = d.attributes n := by
  unfold removeStyle
  split
  · rfl
  · dsimp only
    split
    · rw [removeAttribute, attributes_modifyAttributes, if_neg fun both => other both.1]
    · rw [setAttribute, attributes_modifyAttributes, if_neg fun both => other both.1]

/-- Writing styles changes the attributes of the elements that are written to. -/
theorem attributes_putStyles {ws : List StyleWrite} (other : ∀ w ∈ ws, w.element ≠ n) :
    (d.putStyles ws).attributes n = d.attributes n := by
  induction ws generalizing d with
  | nil => rfl
  | cons w rest ih =>
      have first : (d.putStyle w).attributes n = d.attributes n := by
        have apart := other w List.mem_cons_self
        unfold putStyle
        split
        · exact attributes_setStyle_of_ne apart _ _
        · exact attributes_removeStyle_of_ne apart _
      exact (ih fun v member => other v (List.mem_cons_of_mem w member)).trans first

end Markup.Document

open Binding

/-! ## Moved elements -/

namespace Binding.TransformBinding

variable {held : TransformBinding → Option Guide} {bs bs' : List TransformBinding}

/-- Where an element that is moved stands: in its base, in its carrier. -/
def place (b : TransformBinding) : NodeId × NodeId × NodeId :=
  (b.element, b.base, b.carrier)

theorem Moved.places (moved : List.Forall₂ (Moved held) bs bs') :
    bs'.map place = bs.map place := by
  induction moved with
  | nil => rfl
  | cons one _ ih =>
      obtain ⟨easing, followed, rfl⟩ := one
      rw [List.map_cons, List.map_cons, ih]
      rfl

/-- The clock writes to carriers. -/
theorem attributes_tick {n : NodeId} {b : TransformBinding} (other : b.carrier ≠ n) (now : Float)
    (d : Document) : (b.tick now d).1.attributes n = d.attributes n := by
  obtain ⟨_, same | ⟨kind, offset, written⟩⟩ := b.tick_cases now d
  · rw [same]
  · rw [written]
    exact Markup.Document.attributes_setStyle_of_ne other _ _

theorem attributes_pass_tick {n : NodeId} (other : ∀ b ∈ bs, b.carrier ≠ n) (now : Float)
    (d : Document) :
    (pass (fun d b => b.tick now d) d bs).1.attributes n = d.attributes n := by
  induction bs generalizing d with
  | nil => rfl
  | cons b rest ih =>
      have first := attributes_tick (other b List.mem_cons_self) now d
      exact (ih (fun c member => other c (List.mem_cons_of_mem b member)) _).trans first

end Binding.TransformBinding

/-! ## Drawings -/

namespace Template

/-- An element whose text is bound. -/
def IsWorded (t : Template) (n : NodeId) : Prop :=
  ∃ b ∈ t.wordings, b.element = n

/-- An element that is moved or painted, or the carrier of a moved one. -/
def IsStyled (t : Template) (n : NodeId) : Prop :=
  (∃ b ∈ t.transforms, b.element = n ∨ b.carrier = n) ∨ ∃ b ∈ t.paints, b.element = n

/-- What has become of a drawing by tables and by the clock. -/
structure Updated (t t' : Template) : Prop where
  document : t.document.Framed t.IsWorded t.IsStyled t'.document
  group : t'.instanceGroup = t.instanceGroup
  names : t'.names = t.names
  wordings : t'.wordings = t.wordings
  places : t'.transforms.map TransformBinding.place = t.transforms.map TransformBinding.place
  paints : t'.paints = t.paints

variable {t t' : Template}

namespace Updated

theorem refl (t : Template) : t.Updated t :=
  ⟨.refl _ _ _, rfl, rfl, rfl, rfl, rfl⟩

/-- A moved element and its carrier are those of the drawing that was loaded. -/
theorem isStyled_of_mem (updated : t.Updated t') {b : TransformBinding}
    (member : b ∈ t'.transforms) : t.IsStyled b.element ∧ t.IsStyled b.carrier := by
  have placed := List.mem_map_of_mem (f := TransformBinding.place) member
  rw [updated.places] at placed
  obtain ⟨c, known, same⟩ := List.mem_map.1 placed
  obtain ⟨element, -, carrier⟩ : c.element = b.element ∧ c.base = b.base ∧ c.carrier = b.carrier := by
    simpa [TransformBinding.place] using same
  exact ⟨.inl ⟨c, known, .inl element⟩, .inl ⟨c, known, .inr carrier⟩⟩

/-- One more table. -/
theorem apply (updated : t.Updated t') (legible : t.Legible) (legible' : t'.Legible)
    (table : Table) : t.Updated (t'.apply table) := by
  obtain ⟨-, moved, -⟩ := moved_frame table legible'.toSound
  have result := apply_eq table legible'.toSound
  obtain ⟨ws, ms, ps⟩ := families_of (t := t'.apply table) (by rw [result])
  refine ⟨?_, updated.group, updated.names, ws.trans updated.wordings, ?_, ps.trans updated.paints⟩
  · have document : (t'.apply table).document = t'.painted table := by rw [result]
    have worded : t.document.Framed t.IsWorded t.IsStyled (t'.worded table) := by
      refine updated.document.setTexts legible.whole.toLinked legible'.whole
        (phrases_forall fun b member => ?_)
      rw [updated.wordings] at member
      exact ⟨⟨b, member, rfl⟩, legible.elements b member⟩
    rw [document, painted_eq table legible'.toSound]
    refine worded.restyled (Markup.Document.unstyled_putStyles _ _) fun n free => ?_
    refine Markup.Document.attributes_putStyles fun w member => ?_
    rintro rfl
    rcases List.mem_append.1 member with moves | paint
    · obtain ⟨b, known, rfl⟩ := List.mem_map.1 moves
      exact free (updated.isStyled_of_mem known).1
    · obtain ⟨b, known, here⟩ := List.mem_flatMap.1 paint
      obtain ⟨kind, -, wrote⟩ := List.mem_filterMap.1 here
      obtain ⟨value, -, rfl⟩ := Option.map_eq_some_iff.1 wrote
      exact free (.inr ⟨b, updated.paints ▸ known, rfl⟩)
  · rw [ms, TransformBinding.Moved.places moved, updated.places]

/-- One more tick. -/
theorem tick (updated : t.Updated t') (legible' : t'.Legible) (now : Float) :
    t.Updated (t'.tick now) := by
  obtain ⟨unstyled, -, moved⟩ :=
    TransformBinding.pass_tick_frame now t'.document t'.transforms
  have result := tick_eq now legible'.toSound
  obtain ⟨ws, ms, ps⟩ := families_of (t := t'.tick now) (by rw [result])
  refine ⟨?_, updated.group, updated.names, ws.trans updated.wordings, ?_, ps.trans updated.paints⟩
  · have document : (t'.tick now).document =
        (pass (fun d b => b.tick now d) t'.document t'.transforms).1 := by rw [result]
    rw [document]
    refine updated.document.restyled unstyled fun n free => ?_
    refine TransformBinding.attributes_pass_tick (fun b member => ?_) now _
    rintro rfl
    exact free (updated.isStyled_of_mem member).2
  · rw [ms, TransformBinding.Moved.places moved, updated.places]

end Updated

end Template

/-! ## Sessions -/

namespace Session

/-- The texts of the drawing of every session can be worded. -/
theorem legible_run (settings : Settings) (events : List Event) {t : Template}
    (held : ((start settings).run events).template = some t) : t.Legible :=
  template_run (fun _ _ made => (Template.captured_ofText made).1)
    (fun _ table legible => (legible.apply table).1) (fun _ now legible => (legible.tick now).1)
    events t held

/-- **What updates leave alone.**  However many tables are applied and however often the clock goes
on after a drawing was loaded, nothing in its tree changes but the children of bound texts, with
their parent links, the text of those children, and the style attributes of moved and painted
elements and of carriers. -/
theorem updates_frame (settings : Settings) {before events : List Event} {t : Template}
    (held : ((start settings).run before).template = some t)
    (quiet : ∀ e ∈ events, e.loads settings = false) :
    ∃ t', ((start settings).run (before ++ events)).template = some t' ∧ t.Updated t' := by
  induction events using List.reverseRecOn with
  | nil => exact ⟨t, by rwa [List.append_nil], .refl t⟩
  | append_singleton events e ih =>
      let s := (start settings).run (before ++ events)
      have same : s.settings = settings := (holds_run settings (before ++ events)).same
      obtain ⟨t', held', updated⟩ := ih fun e member => quiet e (List.mem_append_left _ member)
      have legible := legible_run settings before held
      have legible' := legible_run settings (before ++ events) held'
      have refused : e.loads s.settings = false := by
        rw [same]
        exact quiet e (by simp)
      obtain ⟨-, -, change⟩ := step_of_refused refused
      rw [← List.append_assoc, run_concat]
      generalize s.step e = next at change
      cases change with
      | still _ => exact ⟨t', held', updated⟩
      | waiting _ kept => exact ⟨t', kept.trans held', updated⟩
      | @applied next new =>
          refine ⟨t'.apply next.table, ?_, updated.apply legible legible' _⟩
          rw [new, held', Option.map_some]
      | ticked now _ =>
          refine ⟨t'.tick now, ?_, updated.tick legible' now⟩
          rw [tick_template, held', Option.map_some]

/-- The theorem at a bound text inside another one: when the outer one is worded the inner one
loses its parent. -/
theorem updates_frame_nested :
    let before : List Event := [.load nestedDrawing]
    let events : List Event := [.receive (regionMessage "South"), .tick 0, .apply]
    (∀ e ∈ events, e.loads .default = false) ∧
      ∃ t t', ((start .default).run before).template = some t ∧
        ((start .default).run (before ++ events)).template = some t' ∧ t.Updated t' ∧
        t.document.parent? 4 = some 2 ∧ t'.document.parent? 4 = none := by
  intro before events
  have quiet : ∀ e ∈ events, e.loads .default = false := by decide +kernel
  have first : ((start .default).run before).template.map (fun t => t.document.parent? 4) =
      some (some 2) := by decide +kernel
  have last : ((start .default).run (before ++ events)).template.map
      (fun t => t.document.parent? 4) = some none := by decide +kernel
  obtain ⟨t, held, inside⟩ := Option.map_eq_some_iff.1 first
  obtain ⟨t', held', updated⟩ := updates_frame .default held quiet
  rw [held', Option.map_some, Option.some.injEq] at last
  exact ⟨quiet, t, t', held, held', updated, inside, last⟩

end Session

end Infographic
