/-
# Infographic.Proofs.TemplateMaking -- what holds of every drawing made ready

Reading, repairing, gathering and binding keep the document well-formed.  So the elements
bound to transforms are different from each other, and so are the painted ones; each of
them is an element of the document, and every moved element has a style besides its
transform.  `Template.Sound` says all this, and `Template.sound_ofText` that it holds of
every drawing that was made ready.
-/
import Infographic.Proofs.Descendants
import Infographic.Proofs.DocumentOfTree
import Infographic.Proofs.GatheredBody
import Infographic.Proofs.StyleValues

namespace Infographic

set_option autoImplicit false

open Markup (Document NodeId)
open Markup.Document (SameTree WellFormed)

/-! ## Repairs -/

namespace Markup.Document

/-- What steps keep is kept by a fold. -/
theorem foldl_induct {α : Type} {R : Document → Document → Prop} (refl : ∀ d, R d d)
    (trans : ∀ {d d' d''}, R d d' → R d' d'' → R d d'') {step : Document → α → Document}
    (each : ∀ d a, R d (step d a)) (d : Document) (as : List α) : R d (as.foldl step d) := by
  induction as generalizing d with
  | nil => exact refl d
  | cons a rest ih => exact trans (each d a) (ih (step d a))

/-- Repairs are edits of attributes: what these keep is kept by cleaning up. -/
theorem clean_induct {R : Document → Document → Prop} (refl : ∀ d, R d d)
    (trans : ∀ {d d' d''}, R d d' → R d' d'' → R d d'')
    (modify : ∀ d id f, R d (d.modifyAttributes id f)) (d : Document) (svg : NodeId)
    (methods : List String) : R d (d.clean svg methods) := by
  have drop (id : NodeId) (d : Document) (name : String) : R d (dropCoordinate id d name) := by
    unfold dropCoordinate
    split
    · split
      · exact modify d id _
      · exact refl d
    · exact refl d
  have decode (d : Document) (id : NodeId) : R d (decodeId d id) := by
    unfold decodeId
    split
    · dsimp only
      split
      · exact refl d
      · exact modify d id _
    · exact refl d
  have spans : R d (if isAsked methods "text" then d.cleanText svg else d) := by
    split
    · exact foldl_induct refl trans (fun d id => foldl_induct refl trans (drop id) d _) d _
    · exact refl d
  unfold clean
  dsimp only
  split
  · exact trans spans (foldl_induct refl trans decode _ _)
  · exact spans

theorem sameTree_clean (d : Document) (svg : NodeId) (methods : List String) :
    SameTree d (d.clean svg methods) :=
  clean_induct .refl .trans SameTree.modifyAttributes d svg methods

end Markup.Document

/-! ## Binding -/

namespace Binding

variable {β : Type} {bind : Document → NodeId → Document × β}

theorem bindAll_cons_fst (d : Document) (id : NodeId) (rest : List NodeId) :
    (bindAll bind d (id :: rest)).1 = (bindAll bind (bind d id).1 rest).1 := rfl

/-- What every binding step keeps is kept by binding some elements, and what every binding
that is made is like then holds of all of them. -/
theorem bindAll_spec {I : Document → Prop} {P : β → Prop} {ids : List NodeId}
    (step : ∀ d, I d → ∀ id ∈ ids, I (bind d id).1 ∧ P (bind d id).2) {d : Document}
    (start : I d) : I (bindAll bind d ids).1 ∧ ∀ b ∈ (bindAll bind d ids).2, P b := by
  induction ids generalizing d with
  | nil => exact ⟨start, by simp [bindAll]⟩
  | cons id rest ih =>
      obtain ⟨next, made⟩ := step d start id List.mem_cons_self
      obtain ⟨last, later⟩ :=
        ih (fun d holds id member => step d holds id (List.mem_cons_of_mem _ member)) next
      refine ⟨last, fun b member => ?_⟩
      rcases List.mem_cons.1 member with rfl | inside
      · exact made
      · exact later b inside

theorem bindAll_induct {I : Document → Prop} {ids : List NodeId}
    (step : ∀ d, I d → ∀ id ∈ ids, I (bind d id).1) {d : Document} (start : I d) :
    I (bindAll bind d ids).1 :=
  (bindAll_spec (P := fun _ => True) (fun d holds id member => ⟨step d holds id member, trivial⟩)
    start).1

/-- A family that is not asked for binds no elements. -/
theorem bindFamily_eq (asked : Bool) (eligible : Document → NodeId → List NodeId)
    (root : NodeId) (d : Document) :
    bindFamily asked eligible bind root d =
      bindAll bind d (if asked then eligible d root else []) := by
  unfold bindFamily
  split <;> rfl

theorem bindAll_forall {P : β → Prop} (made : ∀ d id, P (bind d id).2) (d : Document)
    (ids : List NodeId) : ∀ b ∈ (bindAll bind d ids).2, P b :=
  (bindAll_spec (I := fun _ => True) (fun d _ id _ => ⟨trivial, made d id⟩) trivial).2

/-- The elements of the bindings that are made. -/
theorem bindAll_elements {element : β → NodeId} (own : ∀ d id, element (bind d id).2 = id)
    (d : Document) (ids : List NodeId) : (bindAll bind d ids).2.map element = ids := by
  induction ids generalizing d with
  | nil => rfl
  | cons id rest ih =>
      have later := ih (bind d id).1
      rw [bindAll]
      dsimp only
      rw [List.map_cons, own, later]

end Binding

namespace Binding

open Markup.Document

/-! ## Elements with options -/

theorem nodup_withOptions {d : Document} (whole : d.WellFormed) (root : NodeId)
    (keys : List String) : (withOptions d root keys).Nodup :=
  (nodup_descendants whole root).filter _

theorem isElement_of_mem_withOptions {d : Document} (links : d.Linked) {root id : NodeId}
    {keys : List String} (member : id ∈ withOptions d root keys) : d.isElement id = true :=
  isElement_of_mem_descendants links (List.mem_filter.1 member).1

/-! ## Texts -/

theorem WordingBinding.sameTree_bind (d : Document) (id : NodeId) :
    SameTree d (WordingBinding.bind d id).1 := by
  change SameTree d (align d id)
  unfold align
  split
  · exact (SameTree.setAttribute _ _ _ _).trans (.setAttribute _ _ _ _)
  · exact .refl d

theorem WordingBinding.isElement_of_eligible {d : Document} (links : d.Linked) {root id : NodeId}
    (eligible : id ∈ eligible d root) : d.isElement id = true := by
  obtain ⟨text, found, part⟩ := List.mem_flatMap.1 (List.mem_filter.1 eligible).1
  have element := isElement_of_mem_descendants links (List.mem_filter.1 found).1
  unfold parts at part
  split at part
  · rw [List.mem_singleton.1 part]
    exact element
  · exact (List.mem_filter.1 part).2

/-- Binding texts keeps the tree, and every text that is bound is an element. -/
theorem WordingBinding.family_frame {d : Document} (links : d.Linked) (asked : Bool)
    (root : NodeId) :
    let made := bindFamily asked eligible bind root d
    SameTree d made.1 ∧ ∀ b ∈ made.2, d.isElement b.element = true := by
  rw [bindFamily_eq]
  refine ⟨bindAll_induct (fun d same id _ => same.trans (sameTree_bind d id)) (.refl d), ?_⟩
  intro b member
  have known := List.mem_map_of_mem (f := element) member
  rw [bindAll_elements fun _ _ => rfl] at known
  split at known
  · exact isElement_of_eligible links known
  · simp at known

/-! ## Transforms -/

namespace TransformBinding

theorem sameTree_handOver (source target : NodeId) (d : Document) (name : String) :
    SameTree d (handOver source target d name) := by
  unfold handOver
  split
  · exact (SameTree.removeAttribute _ _ _).trans (.setAttribute _ _ _ _)
  · exact .refl d

theorem kind?_handOver {source target n : NodeId} (giver : source ≠ n) (taker : target ≠ n)
    (d : Document) (name : String) : (handOver source target d name).kind? n = d.kind? n := by
  unfold handOver
  split
  · rw [setAttribute, kind?_modifyAttributes, if_neg taker, removeAttribute,
      kind?_modifyAttributes, if_neg giver]
  · rfl

theorem kind?_foldl_handOver {source target n : NodeId} (giver : source ≠ n) (taker : target ≠ n)
    (d : Document) (names : List String) :
    (names.foldl (handOver source target) d).kind? n = d.kind? n := by
  induction names generalizing d with
  | nil => rfl
  | cons name rest ih =>
      exact (ih (handOver source target d name)).trans (kind?_handOver giver taker d name)

theorem sameTree_prepare (d : Document) (id : NodeId) (origin : Point Float) :
    SameTree d (prepare d id origin) :=
  (SameTree.setAttribute _ _ _ _).trans ((SameTree.setAttribute _ _ _ _).trans
    ((SameTree.setAttribute _ _ _ _).trans (.setAttribute _ _ _ _)))

theorem kind?_prepare {id n : NodeId} (other : id ≠ n) (d : Document) (origin : Point Float) :
    (prepare d id origin).kind? n = d.kind? n := by
  simp only [prepare, setStyle, setAttribute, kind?_modifyAttributes, if_neg other]

/-- Preparing an element writes to three properties of its style. -/
theorem style?_prepare {d : Document} {id n : NodeId} {q : String}
    (other : q ∉ ["transition-property", "transition-duration", "transform-origin"])
    (origin : Point Float) : (prepare d id origin).style? n q = d.style? n q := by
  simp only [List.mem_cons, List.not_mem_nil, or_false, not_or] at other
  unfold prepare
  dsimp only
  rw [style?_setStyle (clean_origin origin), if_neg (by simp [other]),
    style?_setStyle (cleanDeclaration_of_solid (by decide) (by decide)), if_neg (by simp [other]),
    style?_setStyle (cleanDeclaration_of_solid (by decide) (by decide)), if_neg (by simp [other])]
  refine style?_congr ?_ q
  rw [attribute?_setAttribute, if_neg (by simp)]

/-- A prepared element has a style besides its transform. -/
theorem slow_prepare {d : Document} {id : NodeId} (element : d.isElement id = true)
    (origin : Point Float) :
    ((prepare d id origin).style? id "transition-property").isSome = true := by
  unfold prepare
  dsimp only
  rw [style?_setStyle (clean_origin origin), if_neg (by simp),
    style?_setStyle (cleanDeclaration_of_solid (by decide) (by decide)), if_neg (by simp),
    style?_setStyle (cleanDeclaration_of_solid (by decide) (by decide)), if_pos]
  · rfl
  · exact ⟨rfl, by rw [(SameTree.setAttribute d id _ _).isElement, element], rfl⟩

/-- The document with one group around an element that has taken over its attributes. -/
def covered (d : Document) (id : NodeId) : Document :=
  ["class", "style", "clip-path"].foldl (handOver id d.nodeCount) (d.wrap id "g").1

theorem sameTree_covered (d : Document) (id : NodeId) :
    SameTree (d.wrap id "g").1 (covered d id) :=
  .foldl (sameTree_handOver id d.nodeCount) _ _

section

variable {d : Document} {id : NodeId} (whole : d.WellFormed) (inside : id < d.nodeCount)

include whole

theorem nodeCount_covered : (covered d id).nodeCount = d.nodeCount + 1 :=
  (sameTree_covered d id).nodeCount.trans (nodeCount_wrap whole.toLinked "g")

theorem kind?_covered {n : NodeId} (old : n < d.nodeCount) (other : id ≠ n) :
    (covered d id).kind? n = d.kind? n := by
  rw [covered, kind?_foldl_handOver other (Ne.symm (Nat.ne_of_lt old)),
    kind?_wrap whole.toLinked, if_neg (Nat.ne_of_lt old)]

include inside

theorem wellFormed_covered : (covered d id).WellFormed :=
  (sameTree_covered d id).wellFormed (whole.wrap inside "g")

/-- Putting an element into its groups is putting it into one and this into another. -/
theorem enclose_eq :
    (enclose d id).1 = ((covered d id).wrap d.nodeCount "g").1.setAttribute
      (covered d id).nodeCount "class" carrierClass := by
  simp only [enclose, wrap_snd whole.toLinked]
  exact congrArg
    (fun c => ((covered d id).wrap d.nodeCount "g").1.setAttribute c "class" carrierClass)
    (wrap_snd (wellFormed_covered whole inside).toLinked "g")

/-- The groups of an element are the next two nodes. -/
theorem enclose_snd : (enclose d id).2 = (d.nodeCount, d.nodeCount + 1) := by
  have outer : ((covered d id).wrap d.nodeCount "g").2 = d.nodeCount + 1 :=
    (wrap_snd (wellFormed_covered whole inside).toLinked "g").trans (nodeCount_covered whole)
  simp only [enclose, wrap_snd whole.toLinked]
  exact congrArg (Prod.mk d.nodeCount) outer

/-- Putting an element into its groups adds two nodes and takes attributes from it; all
other nodes keep their content. -/
theorem enclose_frame :
    (enclose d id).1.WellFormed ∧ (enclose d id).1.nodeCount = d.nodeCount + 2 ∧
      (∀ n < d.nodeCount, (enclose d id).1.isElement n = d.isElement n) ∧
      ∀ n < d.nodeCount, id ≠ n → (enclose d id).1.kind? n = d.kind? n := by
  let inner := covered d id
  let outer := (inner.wrap d.nodeCount "g").1
  have whole' : inner.WellFormed := wellFormed_covered whole inside
  have count : inner.nodeCount = d.nodeCount + 1 := nodeCount_covered whole
  have below : d.nodeCount < inner.nodeCount := by
    rw [count]
    exact Nat.lt_succ_self _
  have marked : SameTree outer (outer.setAttribute inner.nodeCount "class" carrierClass) :=
    .setAttribute _ _ _ _
  have kept {n : NodeId} (old : n < d.nodeCount) : outer.kind? n = inner.kind? n := by
    rw [kind?_wrap whole'.toLinked, if_neg (Nat.ne_of_lt (Nat.lt_trans old below))]
  rw [enclose_eq whole inside]
  refine ⟨marked.wellFormed (whole'.wrap below "g"), ?_, fun n old => ?_, fun n old other => ?_⟩
  · rw [marked.nodeCount, nodeCount_wrap whole'.toLinked, count]
  · have first : (d.wrap id "g").1.kind? n = d.kind? n := by
      rw [kind?_wrap whole.toLinked, if_neg (Nat.ne_of_lt old)]
    rw [marked.isElement, isElement_congr (kept old), (sameTree_covered d id).isElement,
      isElement_congr first]
  · rw [setAttribute, kind?_modifyAttributes,
      if_neg (Ne.symm (Nat.ne_of_lt (Nat.lt_trans old below))), kept old,
      kind?_covered whole old other]

/-- Binding an element to transforms keeps the content of all other nodes. -/
theorem bind_frame :
    (bind d id).1.WellFormed ∧ d.nodeCount ≤ (bind d id).1.nodeCount ∧
      (∀ n < d.nodeCount, (bind d id).1.isElement n = d.isElement n) ∧
      ∀ n < d.nodeCount, id ≠ n → (bind d id).1.kind? n = d.kind? n := by
  obtain ⟨wrapped, count, elements, kinds⟩ := enclose_frame whole inside
  have same : SameTree (enclose d id).1 (bind d id).1 := sameTree_prepare _ id _
  refine ⟨same.wellFormed wrapped, ?_, fun n old => ?_, fun n old other => ?_⟩
  · rw [same.nodeCount, count]
    exact Nat.le_add_right _ 2
  · rw [same.isElement, elements n old]
  · exact (kind?_prepare other _ _).trans (kinds n old other)

theorem slow_bind (element : d.isElement id = true) :
    ((bind d id).1.style? id "transition-property").isSome = true :=
  slow_prepare (((enclose_frame whole inside).2.2.1 id inside).trans element) _

end

/-- Binding different elements keeps the content of all other nodes and leaves every bound
element with a style besides its transform. -/
theorem bindAll_frame {d : Document} {ids : List NodeId} (whole : d.WellFormed)
    (elements : ∀ id ∈ ids, d.isElement id = true) (nodup : ids.Nodup) :
    (bindAll bind d ids).1.WellFormed ∧ d.nodeCount ≤ (bindAll bind d ids).1.nodeCount ∧
      (∀ n < d.nodeCount, n ∉ ids → (bindAll bind d ids).1.kind? n = d.kind? n) ∧
      ∀ id ∈ ids, ((bindAll bind d ids).1.style? id "transition-property").isSome = true := by
  induction ids generalizing d with
  | nil => exact ⟨whole, Nat.le_refl _, fun _ _ _ => rfl, by simp⟩
  | cons id rest ih =>
      have element := elements id List.mem_cons_self
      have inside := lt_of_isElement element
      obtain ⟨absent, nodup'⟩ := List.nodup_cons.1 nodup
      obtain ⟨whole₁, grown, elements₁, kinds₁⟩ := bind_frame whole inside
      obtain ⟨whole₂, grown', kinds₂, slow⟩ := ih whole₁ (fun c member => by
        have known := elements c (List.mem_cons_of_mem _ member)
        rw [elements₁ c (lt_of_isElement known), known]) nodup'
      rw [bindAll_cons_fst]
      refine ⟨whole₂, Nat.le_trans grown grown', fun n old other => ?_, fun c member => ?_⟩
      · have apart : id ≠ n := fun same => other (same ▸ List.mem_cons_self)
        have later : n ∉ rest := fun member => other (List.mem_cons_of_mem _ member)
        exact (kinds₂ n (Nat.lt_of_lt_of_le old grown) later).trans (kinds₁ n old apart)
      · rcases List.mem_cons.1 member with rfl | later
        · have kept := kinds₂ c (Nat.lt_of_lt_of_le inside grown) absent
          exact (congrArg Option.isSome (style?_congr (attribute?_congr kept _) _)).trans
            (slow_bind whole inside element)
        · exact slow c later

/-- The elements that are bound to transforms, if this is asked for: no element is listed twice. -/
theorem asked_elements {d : Document} (whole : d.WellFormed) (asked : Bool) (root : NodeId) :
    let ids := if asked then eligible d root else []
    ids.Nodup ∧ ∀ id ∈ ids, d.isElement id = true := by
  cases asked with
  | false => simp
  | true =>
      refine ⟨(nodup_withOptions whole root _).filter _, fun id member => ?_⟩
      exact isElement_of_mem_withOptions whole.toLinked (List.mem_filter.1 member).1

/-- Binding to transforms keeps a document well-formed.  No element is bound twice, and every
bound one has a style besides its transform. -/
theorem family_frame {d : Document} (whole : d.WellFormed) (asked : Bool) (root : NodeId) :
    let made := bindFamily asked eligible bind root d
    made.1.WellFormed ∧ d.nodeCount ≤ made.1.nodeCount ∧
      (made.2.map element).Nodup ∧
      ∀ b ∈ made.2, (made.1.style? b.element "transition-property").isSome = true ∧
        b.FirmBase := by
  intro made
  let ids := if asked then eligible d root else []
  have made_eq : made = bindAll bind d ids := bindFamily_eq asked eligible root d
  obtain ⟨nodup, elements⟩ := asked_elements whole asked root
  have bound : made.2.map element = ids := by
    rw [made_eq]
    exact bindAll_elements (fun _ _ => rfl) d ids
  obtain ⟨whole', grown, -, slow⟩ := bindAll_frame whole elements nodup
  rw [← made_eq] at whole' grown slow
  refine ⟨whole', grown, by rwa [bound], fun b member => ⟨slow _ ?_, ?_⟩⟩
  · have listed : b.element ∈ ids := bound ▸ List.mem_map_of_mem member
    exact listed
  · exact bindAll_forall firm_bind d ids b (made_eq ▸ member)

end TransformBinding

/-! ## Paint -/

namespace PaintBinding

theorem sameTree_bind (d : Document) (id : NodeId) : SameTree d (bind d id).1 := by
  unfold bind
  dsimp only [setStyle]
  exact (SameTree.setAttribute d id "style" _).trans (.setAttribute _ id "style" _)

/-- Binding to paint writes to two properties of a style. -/
theorem style?_bind {d : Document} {id n : NodeId} {q : String}
    (other : q ∉ ["transition-property", "transition-duration"]) :
    (bind d id).1.style? n q = d.style? n q := by
  simp only [List.mem_cons, List.not_mem_nil, or_false, not_or] at other
  unfold bind
  dsimp only
  rw [style?_setStyle (cleanDeclaration_of_solid (by decide) (by decide)), if_neg (by simp [other]),
    style?_setStyle (clean_slowProperties d id), if_neg (by simp [other])]

/-- Binding to paint writes to the style attribute alone. -/
theorem attribute?_bind {d : Document} {id n : NodeId} {q : String} (other : q ≠ "style") :
    (bind d id).1.attribute? n q = d.attribute? n q := by
  unfold bind
  dsimp only [setStyle]
  rw [attribute?_setAttribute, if_neg (by simp [other]), attribute?_setAttribute,
    if_neg (by simp [other])]

/-- Binding to paint takes the list of slow properties from no element. -/
theorem slow_bind {d : Document} {n : NodeId}
    (slow : (d.style? n "transition-property").isSome = true) (id : NodeId) :
    ((bind d id).1.style? n "transition-property").isSome = true := by
  unfold bind
  dsimp only
  rw [style?_setStyle (cleanDeclaration_of_solid (by decide) (by decide)), if_neg (by simp),
    style?_setStyle (clean_slowProperties d id)]
  split
  · rfl
  · exact slow

/-- Binding to paint keeps the tree and takes the list of slow properties from no element.  No
element is bound twice. -/
theorem family_frame {d : Document} (whole : d.WellFormed) (asked : Bool) (root : NodeId) :
    let made := bindFamily asked eligible bind root d
    SameTree d made.1 ∧
      (∀ n, (d.style? n "transition-property").isSome = true →
        (made.1.style? n "transition-property").isSome = true) ∧
      (made.2.map element).Nodup ∧ ∀ b ∈ made.2, d.isElement b.element = true := by
  intro made
  let ids := if asked then eligible d root else []
  have made_eq : made = bindAll bind d ids := bindFamily_eq asked eligible root d
  have bound : made.2.map element = ids := by
    rw [made_eq]
    exact bindAll_elements (fun _ _ => rfl) d ids
  rw [made_eq]
  refine ⟨bindAll_induct (fun d same id _ => same.trans (sameTree_bind d id)) (.refl d),
    fun n slow => bindAll_induct (I := fun d => (d.style? n "transition-property").isSome = true)
      (fun d slow id _ => slow_bind slow id) slow, ?_, ?_⟩
  · rw [← made_eq, bound]
    simp only [ids]
    split
    · exact nodup_withOptions whole root _
    · exact List.nodup_nil
  · intro b member
    have known : b.element ∈ ids := bound ▸ List.mem_map_of_mem (made_eq ▸ member)
    simp only [ids] at known
    split at known
    · exact isElement_of_mem_withOptions whole.toLinked known
    · simp at known

end PaintBinding

end Binding

/-! ## Drawings made ready -/

namespace Template

open Binding

variable (t : Template)

/-- The bindings of texts. -/
def wordings : List WordingBinding :=
  t.bindings.filterMap fun
    | .wording b => some b
    | _ => none

/-- The bindings of transforms. -/
def transforms : List TransformBinding :=
  t.bindings.filterMap fun
    | .transform b => some b
    | _ => none

/-- The bindings of paint. -/
def paints : List PaintBinding :=
  t.bindings.filterMap fun
    | .paint b => some b
    | _ => none

/-- What holds of the bindings of every drawing that was made ready. -/
structure Sound : Prop where
  /-- The bindings stand in the order of the families. -/
  families : t.bindings =
    t.wordings.map .wording ++ t.transforms.map .transform ++ t.paints.map .paint
  worded : ∀ b ∈ t.wordings, b.element < t.document.nodeCount
  /-- A moved element has a style besides its transform. -/
  slow : ∀ b ∈ t.transforms, (t.document.style? b.element "transition-property").isSome = true
  firm : ∀ b ∈ t.transforms, b.FirmBase
  /-- No element is moved by two bindings. -/
  apart : (t.transforms.map TransformBinding.element).Nodup
  painted : ∀ b ∈ t.paints, t.document.isElement b.element = true
  /-- No element is painted by two bindings. -/
  alone : (t.paints.map PaintBinding.element).Nodup

variable {t}

/-- Bindings that stand in the order of the families. -/
theorem families_of {ws : List WordingBinding} {ms : List TransformBinding}
    {ps : List PaintBinding}
    (ordered : t.bindings = ws.map .wording ++ ms.map .transform ++ ps.map .paint) :
    t.wordings = ws ∧ t.transforms = ms ∧ t.paints = ps := by
  simp [wordings, transforms, paints, ordered, List.filterMap_map]

/-! ## The stages of making a drawing ready -/

section

variable (settings : Settings) (d : Document) (svg : NodeId)

/-- The repaired document with its body gathered, and the group of the body. -/
def gathered : Document × NodeId :=
  gather (d.clean svg settings.repairs) svg

/-- The document with its texts bound. -/
def boundTexts : Document × List WordingBinding :=
  let (d, group) := gathered settings d svg
  bindFamily settings.families.wording WordingBinding.eligible WordingBinding.bind group d

/-- The document with its transforms bound, too. -/
def boundTransforms : Document × List TransformBinding :=
  bindFamily settings.families.transforms TransformBinding.eligible TransformBinding.bind
    (gathered settings d svg).2 (boundTexts settings d svg).1

/-- The document with all families bound. -/
def boundPaint : Document × List PaintBinding :=
  bindFamily settings.families.paint PaintBinding.eligible PaintBinding.bind
    (gathered settings d svg).2 (boundTransforms settings d svg).1

theorem ofDocument_document : (ofDocument settings d svg).document = (boundPaint settings d svg).1 :=
  rfl

theorem ofDocument_bindings : (ofDocument settings d svg).bindings =
    (boundTexts settings d svg).2.map .wording ++
      (boundTransforms settings d svg).2.map .transform ++
      (boundPaint settings d svg).2.map .paint :=
  rfl

theorem gathered_snd : (gathered settings d svg).2 = d.nodeCount :=
  (Markup.Document.sameTree_clean d svg settings.repairs).nodeCount

theorem nodeCount_gathered : (gathered settings d svg).1.nodeCount = d.nodeCount + 1 := by
  rw [gathered, nodeCount_gather, (Markup.Document.sameTree_clean d svg settings.repairs).nodeCount]

theorem tag?_gathered : (gathered settings d svg).1.tag? d.nodeCount = some "g" := by
  rw [← gathered_snd settings d svg]
  exact tag?_gather

variable {d svg} (whole : d.WellFormed) (inside : svg < d.nodeCount)

include whole inside

theorem wellFormed_gathered : (gathered settings d svg).1.WellFormed := by
  have cleaned := Markup.Document.sameTree_clean d svg settings.repairs
  exact wellFormed_gather (cleaned.wellFormed whole) (by rwa [cleaned.nodeCount])

theorem sameTree_boundTexts :
    SameTree (gathered settings d svg).1 (boundTexts settings d svg).1 ∧
      ∀ b ∈ (boundTexts settings d svg).2,
        (gathered settings d svg).1.isElement b.element = true :=
  WordingBinding.family_frame (wellFormed_gathered settings whole inside).toLinked _ _

theorem nodeCount_boundTexts : (boundTexts settings d svg).1.nodeCount = d.nodeCount + 1 := by
  rw [(sameTree_boundTexts settings whole inside).1.nodeCount, nodeCount_gathered]

theorem wellFormed_boundTexts : (boundTexts settings d svg).1.WellFormed :=
  (sameTree_boundTexts settings whole inside).1.wellFormed
    (wellFormed_gathered settings whole inside)

theorem wellFormed_boundTransforms : (boundTransforms settings d svg).1.WellFormed :=
  (TransformBinding.family_frame (wellFormed_boundTexts settings whole inside) _ _).1

theorem sameTree_boundPaint :
    SameTree (boundTransforms settings d svg).1 (boundPaint settings d svg).1 :=
  (PaintBinding.family_frame (wellFormed_boundTransforms settings whole inside) _ _).1

theorem sound_ofDocument : (ofDocument settings d svg).Sound := by
  obtain ⟨same, texts⟩ := sameTree_boundTexts settings whole inside
  obtain ⟨-, grown, apart, ready⟩ :=
    TransformBinding.family_frame (wellFormed_boundTexts settings whole inside)
      settings.families.transforms (gathered settings d svg).2
  obtain ⟨painted, slow, alone, elements⟩ :=
    PaintBinding.family_frame (wellFormed_boundTransforms settings whole inside)
      settings.families.paint (gathered settings d svg).2
  obtain ⟨ws, ms, ps⟩ := families_of (ofDocument_bindings settings d svg)
  refine ⟨by rw [ws, ms, ps, ofDocument_bindings], ?_, ?_, ?_, by rwa [ms], ?_, by rwa [ps]⟩
  · rw [ws]
    intro b member
    have old := Document.lt_of_isElement (texts b member)
    rw [← same.nodeCount] at old
    exact Nat.lt_of_lt_of_le old (Nat.le_trans grown (Nat.le_of_eq painted.nodeCount.symm))
  · rw [ms]
    exact fun b member => slow b.element (ready b member).1
  · rw [ms]
    exact fun b member => (ready b member).2
  · rw [ps]
    exact fun b member => (painted.isElement b.element).trans (elements b member)

end

/-- A drawing is made ready from the `svg` element of a well-formed document, and with other
settings from the same one. -/
theorem ofText_eq_ok {settings : Settings} {text : String} (made : ofText settings text = .ok t) :
    ∃ d svg, d.WellFormed ∧ svg < d.nodeCount ∧ t = ofDocument settings d svg ∧
      ∀ others, ofText others text = .ok (ofDocument others d svg) := by
  unfold ofText at made ⊢
  split at made
  · simp at made
  · rename_i d read
    obtain ⟨tree, -, rfl⟩ := Option.map_eq_some_iff.1 read
    split at made
    · simp at made
    · rename_i svg found
      exact ⟨_, svg, Document.wellFormed_ofTree tree, Document.lt_of_findFirst? found,
        (Except.ok.inj made).symm, fun _ => rfl⟩

/-- **Every drawing that is read is made ready.** -/
theorem sound_ofText {settings : Settings} {text : String} (made : ofText settings text = .ok t) :
    t.Sound := by
  obtain ⟨d, svg, whole, inside, rfl, -⟩ := ofText_eq_ok made
  exact sound_ofDocument settings whole inside

end Template

end Infographic
