/-
# Infographic.Proofs.PaintBesideTransforms -- paint bound with and without transforms

Paint is bound after transforms.  With or without transforms it is bound to the same
elements, with the same options and the same opacity; but an element that is moved has handed
its inline style over to its group, so its colours are captured as if it had none
(`Template.paints_beside`).  What is painted in the end differs exactly where this shows
(`Template.paint_beside_transforms`).
-/
import Infographic.Proofs.LatestMessage
import Infographic.Proofs.Regrouping

namespace Infographic

set_option autoImplicit false

open Markup (Document NodeId)
open Markup.Document

namespace Binding

variable {d d' : Document} {id n : NodeId}

/-! ## What is captured -/

namespace PaintBinding

/-- The colour an element is painted with where its style attribute does not count. -/
def unstyledColour (d : Document) (id : NodeId) (property : String) : Colour :=
  painted (d.removeAttribute id "style") id property

/-- The binding that is made where the style attribute does not count. -/
def bared (d : Document) (b : PaintBinding) : PaintBinding :=
  { b with
    fill := unstyledColour d b.element "fill"
    stroke := unstyledColour d b.element "stroke" }

theorem painted_congr {property : String}
    (style : d'.style? id property = d.style? id property)
    (value : d'.attribute? id property = d.attribute? id property) :
    painted d' id property = painted d id property := by
  rw [painted, painted, style, value]

/-- Everything is captured before the element is touched. -/
theorem bind_snd (d : Document) (id : NodeId) :
    (bind d id).2 =
      { element := id
        options := optionsOf d id
        alpha := opacityOf d id
        fill := painted d id "fill"
        stroke := painted d id "stroke" } := by
  have colour (property : String)
      (other : property ∉ ["transition-property", "transition-duration"])
      (apart : property ≠ "style") :
      painted (bind d id).1 id property = painted d id property :=
    painted_congr (style?_bind other) (attribute?_bind apart)
  have opacity : opacityOf (bind d id).1 id = opacityOf d id := by
    rw [opacityOf, attribute?_bind (by decide), opacityOf]
  have whole : (bind d id).2 =
      { element := id
        options := optionsOf d id
        alpha := opacityOf (bind d id).1 id
        fill := painted (bind d id).1 id "fill"
        stroke := painted (bind d id).1 id "stroke" } := rfl
  rw [whole, opacity, colour "fill" (by decide) (by decide), colour "stroke" (by decide) (by decide)]

theorem bind_congr (same : d'.kind? id = d.kind? id) : (bind d' id).2 = (bind d id).2 := by
  have named (q : String) : d'.attribute? id q = d.attribute? id q := attribute?_congr same q
  have colour (property : String) : painted d' id property = painted d id property :=
    painted_congr (style?_congr (named "style") property) (named property)
  rw [bind_snd, bind_snd, optionsOf, opacityOf, named, named, colour, colour, optionsOf,
    opacityOf]

theorem kind?_bind (other : id ≠ n) (d : Document) : (bind d id).1.kind? n = d.kind? n := by
  unfold bind
  simp only [setStyle, setAttribute, kind?_modifyAttributes, if_neg other]

/-- Of different elements each one is bound as it is at first. -/
theorem bindAll_snd {ids : List NodeId} (nodup : ids.Nodup) (d : Document) :
    (bindAll bind d ids).2 = ids.map fun id => (bind d id).2 := by
  induction ids generalizing d with
  | nil => rfl
  | cons id rest ih =>
      obtain ⟨absent, nodup'⟩ := List.nodup_cons.1 nodup
      have later : rest.map (fun c => (bind (bind d id).1 c).2) =
          rest.map fun c => (bind d c).2 := by
        refine List.map_congr_left fun c member => bind_congr (kind?_bind ?_ d)
        rintro rfl
        exact absent member
      rw [bindAll, List.map_cons]
      dsimp only
      rw [ih nodup', later]

/-- Binding paint regroups nothing, and leaves the attributes besides the style. -/
theorem bindAll_frame (d : Document) (ids : List NodeId) :
    Regrouped d (bindAll bind d ids).1 ∧ SameTree d (bindAll bind d ids).1 ∧
      ∀ n, removeEntry "style" ((bindAll bind d ids).1.attributes n) =
        removeEntry "style" (d.attributes n) := by
  have bare (d : Document) (id n : NodeId) (value : String) :
      removeEntry "style" ((d.setAttribute id "style" value).attributes n) =
        removeEntry "style" (d.attributes n) := by
    rw [setAttribute, attributes_modifyAttributes]
    split
    · rw [removeEntry_setEntry]
    · rfl
  refine bindAll_induct (I := fun d' => Regrouped d d' ∧ SameTree d d' ∧
    ∀ n, removeEntry "style" (d'.attributes n) = removeEntry "style" (d.attributes n))
    (fun d' all id _ => ?_) ⟨.refl d, .refl d, fun _ => rfl⟩
  obtain ⟨regrouped, same, left⟩ := all
  refine ⟨regrouped.trans ?_, same.trans (sameTree_bind d' id), fun n => ?_⟩
  · exact (Regrouped.setAttribute _ id (by decide) _).trans (.setAttribute _ id (by decide) _)
  · unfold bind
    dsimp only [setStyle]
    rw [bare, bare, left]

theorem unstyledColour_congr
    (same : removeEntry "style" (d'.attributes id) = removeEntry "style" (d.attributes id))
    (property : String) : unstyledColour d' id property = unstyledColour d id property := by
  have named (q : String) :
      (d'.removeAttribute id "style").attribute? id q =
        (d.removeAttribute id "style").attribute? id q := by
    rw [attribute?, attributes_removeAttribute_self, same, attribute?,
      attributes_removeAttribute_self]
  exact painted_congr (style?_congr (named "style") property) (named property)

end PaintBinding

/-! ## What is captured behind transforms -/

/-- Every element that was moved has lost its inline style. -/
theorem TransformBinding.style?_bindAll {ids : List NodeId} (whole : d.WellFormed)
    (elements : ∀ id ∈ ids, d.isElement id = true) (nodup : ids.Nodup) {q : String}
    (other : q ∉ ["transition-property", "transition-duration", "transform-origin"]) :
    ∀ id ∈ ids, (bindAll bind d ids).1.style? id q = (d.removeAttribute id "style").style? id q := by
  induction ids generalizing d with
  | nil => simp
  | cons id rest ih =>
      have inside := lt_of_isElement (elements id List.mem_cons_self)
      obtain ⟨absent, nodup'⟩ := List.nodup_cons.1 nodup
      obtain ⟨whole₁, grown, elements₁, kinds₁⟩ := bind_frame whole inside
      have next : ∀ c ∈ rest, (bind d id).1.isElement c = true := by
        intro c member
        have known := elements c (List.mem_cons_of_mem _ member)
        rw [elements₁ c (lt_of_isElement known), known]
      obtain ⟨-, -, kinds₂, -⟩ := bindAll_frame whole₁ next nodup'
      intro c member
      rw [bindAll_cons_fst]
      rcases List.mem_cons.1 member with rfl | later
      · have kept := kinds₂ c (Nat.lt_of_lt_of_le inside grown) absent
        rw [style?_congr (attribute?_congr kept _), style?_bind whole inside other]
      · have old := lt_of_isElement (elements c (List.mem_cons_of_mem _ later))
        have apart : id ≠ c := fun same => absent (same ▸ later)
        have same : (bind d id).1.attributes c = d.attributes c :=
          attributes_congr (kinds₁ c old apart)
        rw [ih whole₁ next nodup' c later]
        refine style?_congr ?_ q
        rw [attribute?, attributes_removeAttribute_self, same, attribute?,
          attributes_removeAttribute_self]

/-- Behind transforms an element is painted as before, and one that was moved as if it had no
inline style. -/
theorem PaintBinding.bind_beside {ids : List NodeId} (whole : d.WellFormed)
    (elements : ∀ id ∈ ids, d.isElement id = true) (nodup : ids.Nodup)
    (regrouped : Regrouped d (bindAll TransformBinding.bind d ids).1) (old : n < d.nodeCount) :
    (bind (bindAll TransformBinding.bind d ids).1 n).2 =
      if n ∈ ids then bared d (bind d n).2 else (bind d n).2 := by
  obtain ⟨-, -, kinds, -⟩ := TransformBinding.bindAll_frame whole elements nodup
  split
  · rename_i member
    have named (q : String) (other : q ∉ TransformBinding.groupedAttributes) :=
      regrouped.attribute? n q other
    have colour (property : String)
        (other : property ∉ ["transition-property", "transition-duration", "transform-origin"])
        (apart : property ∉ TransformBinding.groupedAttributes) (plain : property ≠ "style") :
        painted (bindAll TransformBinding.bind d ids).1 n property =
          unstyledColour d n property := by
      refine painted_congr (TransformBinding.style?_bindAll whole elements nodup other n member) ?_
      rw [named property apart, attribute?_removeAttribute plain]
    rw [bind_snd, bind_snd, bared, optionsOf, named "id" (by decide), opacityOf,
      named "opacity" (by decide), colour "fill" (by decide) (by decide) (by decide),
      colour "stroke" (by decide) (by decide) (by decide), optionsOf, opacityOf]
  · rename_i free
    exact bind_congr (kinds n old free)

/-- The elements that transforms are bound to are the same before and after paint is bound. -/
theorem TransformBinding.eligible_of_regrouped (regrouped : Regrouped d d')
    (same : SameTree d d') {root : NodeId} (old : root < d.nodeCount) :
    TransformBinding.eligible d' root = TransformBinding.eligible d root := by
  rw [eligible, eligible, withOptions_of_regrouped regrouped old, funext same.tag?]

end Binding

/-! ## Drawings -/

namespace Template

open Binding

section

variable {settings others : Settings} {d : Document} {svg : NodeId} (whole : d.WellFormed)
  (inside : svg < d.nodeCount) (repairs : others.repairs = settings.repairs) {texts : Bool}
  (alone : settings.families = ⟨texts, false, true⟩) (both : others.families = ⟨texts, true, true⟩)

include whole inside repairs alone both

/-- Beside transforms paint is bound to the same elements in the same order, with the colours
that a moved element has without its style attribute. -/
theorem paints_beside :
    let plain := ofDocument settings d svg
    let full := ofDocument others d svg
    full.paints = plain.paints.map fun b =>
      if b.element ∈ TransformBinding.eligible plain.document plain.instanceGroup then
        b.bared plain.document
      else b := by
  intro plain full
  let start := (boundTexts settings d svg).1
  let root := (gathered settings d svg).2
  let moved := TransformBinding.eligible start root
  let ids := PaintBinding.eligible start root
  have whole₁ : start.WellFormed := wellFormed_boundTexts settings whole inside
  have same₁ : SameTree (gathered settings d svg).1 start :=
    (sameTree_boundTexts settings whole inside).1
  have old : root < start.nodeCount := by
    rw [same₁.nodeCount]
    exact group_lt_nodeCount_gather
  have gathered_eq : gathered others d svg = gathered settings d svg := by
    rw [gathered, gathered, repairs]
  have texts_eq : boundTexts others d svg = boundTexts settings d svg := by
    rw [boundTexts, boundTexts, gathered_eq, both, alone]
  have plain_paint : boundPaint settings d svg = bindAll PaintBinding.bind start ids := by
    rw [boundPaint, boundTransforms, alone]
    rfl
  have full_moves : boundTransforms others d svg = bindAll TransformBinding.bind start moved := by
    rw [boundTransforms, texts_eq, gathered_eq, both]
    rfl
  have elements : ∀ id ∈ moved, start.isElement id = true := fun id member =>
    isElement_of_mem_withOptions whole₁.toLinked (List.mem_filter.1 member).1
  have nodup : moved.Nodup := (nodup_withOptions whole₁ root _).filter _
  have once : ids.Nodup := nodup_withOptions whole₁ root _
  let behind := (bindAll TransformBinding.bind start moved).1
  have regrouped : Regrouped start behind :=
    TransformBinding.grouping_regrouped.family whole₁ true root
  have full_paint : boundPaint others d svg = bindAll PaintBinding.bind behind ids := by
    have same : PaintBinding.eligible behind root = ids := withOptions_of_regrouped regrouped old _
    rw [boundPaint, full_moves, gathered_eq, both, ← same]
    rfl
  obtain ⟨regrouped', same', bare⟩ := PaintBinding.bindAll_frame start ids
  have eligible : TransformBinding.eligible plain.document plain.instanceGroup = moved := by
    have document : plain.document = (bindAll PaintBinding.bind start ids).1 := by
      rw [← plain_paint]
      rfl
    rw [document]
    exact TransformBinding.eligible_of_regrouped regrouped' same' old
  have plain_paints : plain.paints = ids.map fun id => (PaintBinding.bind start id).2 := by
    rw [(families_of (ofDocument_bindings settings d svg)).2.2, plain_paint,
      PaintBinding.bindAll_snd once]
  have full_paints : full.paints = ids.map fun id => (PaintBinding.bind behind id).2 := by
    rw [(families_of (ofDocument_bindings others d svg)).2.2, full_paint,
      PaintBinding.bindAll_snd once]
  rw [full_paints, plain_paints, List.map_map, eligible]
  refine List.map_congr_left fun id member => ?_
  have inside' := lt_of_isElement (isElement_of_mem_withOptions whole₁.toLinked member)
  have colour (property : String) : PaintBinding.unstyledColour plain.document id property =
      PaintBinding.unstyledColour start id property := by
    refine PaintBinding.unstyledColour_congr ?_ property
    rw [ofDocument_document, plain_paint, bare]
  have bared : (PaintBinding.bind start id).2.bared plain.document =
      (PaintBinding.bind start id).2.bared start := by
    have element : (PaintBinding.bind start id).2.element = id := rfl
    rw [PaintBinding.bared, PaintBinding.bared, element, colour, colour]
  rw [Function.comp_apply, PaintBinding.bind_beside whole₁ elements nodup regrouped inside', bared]
  rfl

end

/-- What a table drives is painted as the binding says. -/
theorem style?_apply_of_shown {t : Template} (sound : t.Sound) {b : PaintBinding}
    (member : b ∈ t.paints) {table : Table} {kind : PaintKind}
    (shown : (b.shown? table kind).isSome) :
    (t.apply table).document.style? b.element kind.property = b.shown? table kind := by
  obtain ⟨value, here⟩ := Option.isSome_iff_exists.1 shown
  have document : (t.apply table).document = t.painted table := by rw [apply_eq table sound]
  rw [document, (painted_frame table sound).2.1 b member kind, here, Option.some_or]

/-- A drawing that can be loaded with paint can be loaded with transforms besides, and then its
paint is as the elements show without the style attributes that were handed over. -/
theorem ofText_beside {settings : Settings} {text : String} {plain : Template}
    (made : ofText { settings with dynamics := "styles" } text = .ok plain) :
    ∃ full, ofText { settings with dynamics := "styles,transforms" } text = .ok full ∧
      plain.Sound ∧ full.Sound ∧
      full.paints = plain.paints.map fun b =>
        if b.element ∈ TransformBinding.eligible plain.document plain.instanceGroup then
          b.bared plain.document
        else b := by
  obtain ⟨d, svg, whole, inside, same, others⟩ := ofText_eq_ok made
  -- the characters are taken out first: the kernel would decode them again at every step
  have alone : Families.ofText "styles" = ⟨false, false, true⟩ := by
    rewrite [Families.ofText, String.toList_ofList]
    decide +kernel
  have both : Families.ofText "styles,transforms" = ⟨false, true, true⟩ := by
    rewrite [Families.ofText, String.toList_ofList]
    decide +kernel
  refine ⟨_, others _, sound_ofText made, sound_ofDocument _ whole inside, ?_⟩
  simp only [same]
  exact paints_beside whole inside rfl alone both

/-- **Paint with and without transforms.**  A drawing that is loaded with transforms besides
paint has the same elements painted, in the same order, by the same options and from the same
opacity; an element that transforms are bound to is painted from the colours that it has
without its style attribute.  So what a table paints is the same with transforms as without
them exactly where those colours show the same, and the opacity always is. -/
theorem paint_beside_transforms {settings : Settings} {text : String} {plain : Template}
    (made : ofText { settings with dynamics := "styles" } text = .ok plain) :
    let moved := TransformBinding.eligible plain.document plain.instanceGroup
    ∃ full, ofText { settings with dynamics := "styles,transforms" } text = .ok full ∧
      full.paints = (plain.paints.map fun b =>
        if b.element ∈ moved then b.bared plain.document else b) ∧
      ∀ b ∈ plain.paints, ∀ table kind, (b.shown? table kind).isSome →
        let painted := fun t : Template =>
          (t.apply table).document.style? b.element kind.property
        (painted full = painted plain ↔ (b.element ∈ moved →
          (b.bared plain.document).shown? table kind = b.shown? table kind)) ∧
        (kind = .alpha → painted full = painted plain) := by
  intro moved
  obtain ⟨full, made', sound, sound', paints⟩ := ofText_beside made
  refine ⟨full, made', paints, fun b member table kind shown => ?_⟩
  intro painted
  let b' := if b.element ∈ moved then b.bared plain.document else b
  have member' : b' ∈ full.paints := paints ▸ List.mem_map_of_mem member
  have cases : b' = b.bared plain.document ∧ b.element ∈ moved ∨ b' = b ∧ b.element ∉ moved := by
    by_cases here : b.element ∈ moved
    · exact .inl ⟨if_pos here, here⟩
    · exact .inr ⟨if_neg here, here⟩
  have plainly : painted plain = b.shown? table kind := style?_apply_of_shown sound member shown
  rcases cases with ⟨bared, here⟩ | ⟨same, free⟩
  · have shown' : (b'.shown? table kind).isSome := by
      rw [PaintBinding.shown?, Option.isSome_map] at shown ⊢
      rw [bared]
      exact shown
    have element : b'.element = b.element := by rw [bared]; rfl
    have fully : painted full = (b.bared plain.document).shown? table kind := by
      have there := style?_apply_of_shown sound' member' shown'
      rwa [element, bared] at there
    rw [plainly, fully]
    refine ⟨⟨fun agree _ => agree, fun agree => agree here⟩, ?_⟩
    rintro rfl
    rfl
  · have fully : painted full = b.shown? table kind :=
      style?_apply_of_shown sound' (same ▸ member') shown
    rw [plainly, fully]
    exact ⟨⟨fun _ inside => absurd inside free, fun _ => rfl⟩, fun _ => rfl⟩

/-- A bar that is filled and scaled by a value, with a colour in its style. -/
def greenDrawing : String :=
  "<svg><rect id=\"\x7b\x7bf:Value,s:Value\x7d\x7d\" style=\"fill: #00ff00\" width=\"4\" " ++
    "height=\"4\"/></svg>"

/-- The theorem at a bar that is moved. -/
theorem paint_beside_transforms_bar :
    let ready := fun dynamics => ofText { Settings.default with dynamics } greenDrawing
    ∃ plain full, ready "styles" = .ok plain ∧ ready "styles,transforms" = .ok full ∧
      full.paints = plain.paints.map fun b =>
        if b.element ∈ TransformBinding.eligible plain.document plain.instanceGroup then
          b.bared plain.document
        else b := by
  intro ready
  have usable : (ready "styles").isOk = true := by decide +kernel
  cases made : ready "styles" with
  | error fault => simp [made, Except.isOk, Except.toBool] at usable
  | ok plain =>
      obtain ⟨full, made', paints, -⟩ := paint_beside_transforms made
      exact ⟨plain, full, rfl, made', paints⟩

end Template

namespace Session

open Binding

theorem start_load {settings : Settings} {text : String} {t : Template}
    (made : Template.ofText settings text = .ok t) :
    (start settings).step (.load text) = (start settings).adopt t := by
  simp [step, load, start, made, Except.map, Except.toOption]

/-- After a drawing was loaded, a message shows what it drives as the binding says. -/
theorem style?_receive_of_shown {settings : Settings} {text : String} {t : Template}
    (made : Template.ofText settings text = .ok t) {b : PaintBinding} (member : b ∈ t.paints)
    {m : Message} {kind : PaintKind}
    (shown : (b.shown? ((start settings).tableOf m) kind).isSome) :
    (((start settings).step (.load text)).receive m).style? b.element kind.property =
      b.shown? ((start settings).tableOf m) kind := by
  rw [start_load made]
  exact Template.style?_apply_of_shown (Template.sound_ofText made) member shown

/-- The colour of a bar need not be the same with transforms as without them. -/
theorem not_paint_beside_transforms :
    ¬ ∀ (settings : Settings) (text : String) (m : Message),
      let loaded := fun dynamics => (start { settings with dynamics }).step (.load text)
      ∀ t, (loaded "styles").template = some t → ∀ b ∈ t.paints, ∀ kind : PaintKind,
        ((loaded "styles,transforms").receive m).style? b.element kind.property =
          ((loaded "styles").receive m).style? b.element kind.property := by
  intro same
  let table := (start .default).tableOf valueMessage
  let ready := Template.ofText { Settings.default with dynamics := "styles" } Template.greenDrawing
  have seen : (ready.toOption.map fun t => t.paints.map fun b =>
        (decide (b.element ∈ TransformBinding.eligible t.document t.instanceGroup),
          b.shown? table .fill, (b.bared t.document).shown? table .fill)) =
      some [(true, some "#00ff00", some "#000000")] := by decide +kernel
  cases made : ready with
  | error fault => simp [made, Except.toOption] at seen
  | ok plain =>
      rw [made] at seen
      obtain ⟨b, member, shown⟩ := List.mem_map.1
        (Option.some.inj seen ▸ List.mem_singleton_self (true, some "#00ff00", some "#000000"))
      obtain ⟨moved, green, black⟩ : b.element ∈ TransformBinding.eligible plain.document
            plain.instanceGroup ∧
          b.shown? table .fill = some "#00ff00" ∧
          (b.bared plain.document).shown? table .fill = some "#000000" := by
        simpa using shown
      obtain ⟨full, made', -, -, paints⟩ := Template.ofText_beside made
      have member' : b.bared plain.document ∈ full.paints :=
        paints ▸ List.mem_map.2 ⟨b, member, if_pos moved⟩
      have plainly := style?_receive_of_shown made member (m := valueMessage)
        (Option.isSome_of_eq_some green)
      have fully := style?_receive_of_shown made' member' (m := valueMessage)
        (Option.isSome_of_eq_some black)
      have held : ((start { Settings.default with dynamics := "styles" }).step
          (.load Template.greenDrawing)).template = some plain := by rw [start_load made]; rfl
      have agree := same .default Template.greenDrawing valueMessage plain held b member .fill
      have colours : some "#000000" = some "#00ff00" :=
        black.symm.trans (fully.symm.trans (agree.trans (plainly.trans green)))
      exact absurd colours (by decide)

end Session

end Infographic
