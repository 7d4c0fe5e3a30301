/-
# Infographic.Proofs.LoadedTree -- the drawing inside the tree that a load builds

A load repairs attributes, moves the body of the drawing into a new group and puts every moved
element into two more.  With these groups taken out of the way all nodes of the text that was
read have their tags, their texts and their children, except that below the `svg` element the
texts and styles come before the shapes (`Template.preserves_ofDocument`).  A table that was
waiting is applied by the load, which then changes what every table changes
(`Session.load_keeps_tree`, `Session.not_load_keeps_tree`).
-/
import Infographic.Proofs.RegisteredElements
import Infographic.Proofs.SplicedTree
import Infographic.Proofs.UpdateFrame

namespace Infographic

set_option autoImplicit false

open Markup (Document NodeId)
open Markup.Document (SameTree WellFormed Interposed)

/-! ## Groups around moved elements -/

namespace Binding.TransformBinding

open Markup.Document (children_wrap nodeCount_wrap kind?_wrap tag?_congr map_swap_of_not_mem swap
  lt_of_parent? lt_of_isElement)

/-- The two groups around a moved element. -/
def groups (b : TransformBinding) : List NodeId :=
  [b.base, b.carrier]

/-- An element is the only child of its base, which is the only child of its carrier. -/
def Encloses (d : Document) (b : TransformBinding) : Prop :=
  d.children b.base = [b.element] ∧ d.children b.carrier = [b.base]

variable {d : Document} {id : NodeId}

/-- Elements that are bound have two new groups each, numbered in order, and all other children
stay. -/
structure Grouped (d : Document) (ids : List NodeId) (made : Document × List TransformBinding) :
    Prop where
  elements : made.2.map element = ids
  groups : made.2.flatMap groups = List.range' d.nodeCount (2 * ids.length)
  nodeCount : made.1.nodeCount = d.nodeCount + 2 * ids.length
  tag? : ∀ n < d.nodeCount, made.1.tag? n = d.tag? n
  grouped : ∀ g ∈ made.2.flatMap TransformBinding.groups, made.1.tag? g = some "g"
  encloses : ∀ b ∈ made.2, Encloses made.1 b
  children : ∀ n < d.nodeCount, (∀ id ∈ ids, id ∉ d.children n) →
    made.1.children n = d.children n

namespace Grouped

theorem nil (d : Document) : Grouped d [] (d, []) :=
  ⟨rfl, rfl, rfl, fun _ _ => rfl, by simp, by simp, fun _ _ _ => rfl⟩

/-- The groups are the new nodes. -/
theorem mem_groups {ids : List NodeId} {made : Document × List TransformBinding}
    (bound : Grouped d ids made) {g : NodeId} :
    g ∈ made.2.flatMap TransformBinding.groups ↔ d.nodeCount ≤ g ∧ g < made.1.nodeCount := by
  rw [bound.groups, bound.nodeCount, List.mem_range'_1]

/-- One element is bound, and then different ones. -/
theorem cons {d₁ d₂ : Document} {b : TransformBinding} {bs : List TransformBinding}
    {rest : List NodeId} (first : Grouped d [id] (d₁, [b])) (later : Grouped d₁ rest (d₂, bs))
    (absent : id ∉ rest) (old : ∀ c ∈ rest, c < d.nodeCount) :
    Grouped d (id :: rest) (d₂, b :: bs) := by
  have element : b.element = id := List.singleton_inj.1 first.elements
  have count : d₁.nodeCount = d.nodeCount + 2 := first.nodeCount
  have length : 2 * (id :: rest).length = 2 + 2 * rest.length := by
    rw [List.length_cons, Nat.mul_succ, Nat.add_comm]
  have groups : TransformBinding.groups b = List.range' d.nodeCount 2 := by
    simpa using first.groups
  have new {g : NodeId} (member : g ∈ TransformBinding.groups b) :
      d.nodeCount ≤ g ∧ g < d₁.nodeCount :=
    first.mem_groups.1 (List.mem_flatMap.2 ⟨b, List.mem_singleton_self b, member⟩)
  have grown {n : NodeId} (before : n < d.nodeCount) : n < d₁.nodeCount := by
    rw [count]
    exact Nat.lt_add_right _ before
  -- The groups of the first element hold nothing that is bound later.
  have kept {g c : NodeId} (member : g ∈ TransformBinding.groups b) (only : d₁.children g = [c])
      (free : c ∉ rest) : d₂.children g = [c] := by
    rw [later.children g (new member).2 fun a listed => ?_, only]
    rw [only, List.mem_singleton]
    rintro rfl
    exact free listed
  refine ⟨?_, ?_, ?_, fun n before => ?_, fun g member => ?_, fun c member => ?_,
    fun n before free => ?_⟩
  · rw [List.map_cons, element, later.elements]
  · rw [List.flatMap_cons, groups, later.groups, count, length, List.range'_append_1]
  · rw [later.nodeCount, count, length, Nat.add_assoc]
  · exact (later.tag? n (grown before)).trans (first.tag? n before)
  · rcases List.mem_append.1 member with here | after
    · rw [later.tag? g (new here).2]
      exact first.grouped g (List.mem_flatMap.2 ⟨b, List.mem_singleton_self b, here⟩)
    · exact later.grouped g after
  · rcases List.mem_cons.1 member with rfl | after
    · obtain ⟨only, only'⟩ := first.encloses c (List.mem_singleton_self c)
      have base : c.base ∈ TransformBinding.groups c := by simp [TransformBinding.groups]
      refine ⟨kept base only (element ▸ absent), kept (by simp [TransformBinding.groups]) only' ?_⟩
      exact fun listed => Nat.not_lt_of_le (new base).1 (old _ listed)
    · exact later.encloses c after
  · have plain := first.children n before fun a single => by
      rw [List.mem_singleton.1 single]
      exact free id List.mem_cons_self
    rw [later.children n (grown before) fun c listed => ?_, plain]
    rw [plain]
    exact free c (List.mem_cons_of_mem id listed)

end Grouped

section

variable (whole : d.WellFormed) (inside : id < d.nodeCount)

include whole inside

theorem base_bind : (bind d id).2.base = d.nodeCount := by
  change (enclose d id).2.1 = _
  rw [enclose_snd whole inside]

theorem carrier_bind : (bind d id).2.carrier = d.nodeCount + 1 := by
  change (enclose d id).2.2 = _
  rw [enclose_snd whole inside]

/-- What is bound is put into one group, and this into another. -/
theorem sameTree_bind :
    SameTree ((covered d id).wrap d.nodeCount "g").1 (bind d id).1 := by
  have prepared : SameTree (enclose d id).1 (bind d id).1 := sameTree_prepare _ id _
  rw [enclose_eq whole inside] at prepared
  exact (SameTree.setAttribute _ _ "class" carrierClass).trans prepared

theorem nodeCount_bind : (bind d id).1.nodeCount = d.nodeCount + 2 := by
  rw [(sameTree_bind whole inside).nodeCount,
    nodeCount_wrap (wellFormed_covered whole inside).toLinked, nodeCount_covered whole]

theorem tag?_bind {g : NodeId} (new : g = d.nodeCount ∨ g = d.nodeCount + 1) :
    (bind d id).1.tag? g = some "g" := by
  have kind : ((covered d id).wrap d.nodeCount "g").1.kind? g = _ :=
    kind?_wrap (wellFormed_covered whole inside).toLinked "g" g
  rw [nodeCount_covered whole] at kind
  rw [(sameTree_bind whole inside).tag?]
  rcases new with rfl | rfl
  · rw [if_neg (Nat.ne_of_lt (Nat.lt_succ_self _))] at kind
    rw [tag?_congr kind, (sameTree_covered d id).tag?, Document.tag?, kind?_wrap whole.toLinked,
      if_pos rfl]
  · rw [Document.tag?, kind, if_pos rfl]

/-- The outer group stands where the element stood. -/
theorem children_bind (n : NodeId) :
    (bind d id).1.children n =
      if n = d.nodeCount + 1 then [d.nodeCount] else if n = d.nodeCount then [id]
      else (d.children n).map (swap id (d.nodeCount + 1)) := by
  have below : d.nodeCount < (covered d id).nodeCount := by
    rw [nodeCount_covered whole]
    exact Nat.lt_succ_self _
  have other : d.nodeCount ∉ [id] := by simpa using Ne.symm (Nat.ne_of_lt inside)
  rw [(sameTree_bind whole inside).children,
    children_wrap (wellFormed_covered whole inside).toLinked below, nodeCount_covered whole,
    (sameTree_covered d id).children, children_wrap whole.toLinked inside]
  by_cases outer : n = d.nodeCount + 1
  · rw [if_pos outer, if_pos outer]
  · rw [if_neg outer, if_neg outer]
    by_cases inner : n = d.nodeCount
    · rw [if_pos inner, if_pos inner, map_swap_of_not_mem other]
    · rw [if_neg inner, if_neg inner, List.map_map]
      refine List.map_congr_left fun c child => ?_
      have old : c ≠ d.nodeCount := Nat.ne_of_lt (lt_of_parent? ((whole.mem_iff n c).1 child))
      by_cases here : c = id <;> simp [swap, here, old]

/-- Binding an element makes two groups around it. -/
theorem grouped_bind : Grouped d [id] ((bind d id).1, [(bind d id).2]) := by
  have element : (bind d id).2.element = id := rfl
  have base := base_bind whole inside
  have carrier := carrier_bind whole inside
  have count := nodeCount_bind whole inside
  have tag {g : NodeId} := tag?_bind whole inside (g := g)
  have children := children_bind whole inside
  have kept : Interposed d.nodeCount d (bind d id).1 := (grouping_interposed _).bind whole inside
  generalize bind d id = made at *
  have groups : [made.2].flatMap groups = [d.nodeCount, d.nodeCount + 1] := by
    rw [List.flatMap_singleton, TransformBinding.groups, base, carrier]
  refine ⟨congrArg (fun n => [n]) element, groups, count, kept.tag?, fun g member => ?_,
    fun b member => ?_, fun n old free => ?_⟩
  · refine tag ?_
    rw [groups] at member
    simpa using member
  · rw [List.mem_singleton.1 member, Encloses, element, base, carrier, children, children,
      if_neg (Nat.ne_of_lt (Nat.lt_succ_self _)), if_pos rfl, if_pos rfl]
    exact ⟨rfl, rfl⟩
  · rw [children, if_neg (Nat.ne_of_lt (Nat.lt_succ_of_lt old)), if_neg (Nat.ne_of_lt old),
      map_swap_of_not_mem (free id (List.mem_singleton_self id))]

end

/-- Binding different elements makes two groups around each. -/
theorem grouped_bindAll {ids : List NodeId} (whole : d.WellFormed)
    (elements : ∀ id ∈ ids, d.isElement id = true) (once : ids.Nodup) :
    Grouped d ids (bindAll bind d ids) := by
  induction ids generalizing d with
  | nil => exact .nil d
  | cons id rest ih =>
      obtain ⟨absent, once'⟩ := List.nodup_cons.1 once
      have inside := lt_of_isElement (elements id List.mem_cons_self)
      have known {c : NodeId} (member : c ∈ rest) : d.isElement c = true :=
        elements c (List.mem_cons_of_mem id member)
      obtain ⟨whole₁, -, elements₁, -⟩ := bind_frame whole inside
      have later : Grouped (bind d id).1 rest (bindAll bind (bind d id).1 rest) :=
        ih whole₁ (fun c member => by
          rw [elements₁ c (lt_of_isElement (known member)), known member]) once'
      exact (grouped_bind whole inside).cons later absent fun c member =>
        lt_of_isElement (known member)

end Binding.TransformBinding

/-- Binding texts changes attributes only. -/
theorem Binding.WordingBinding.interposed_family (base : NodeId) (d : Document) (asked : Bool)
    (root : NodeId) :
    Interposed base d (bindFamily asked eligible WordingBinding.bind root d).1 := by
  rw [bindFamily_eq]
  refine bindAll_induct (I := fun d' => Interposed base d d') (fun d' kept id _ => ?_) (.refl base d)
  refine kept.trans ?_
  change Interposed base d' (align d' id)
  unfold align
  split
  · exact (Interposed.modifyAttributes base _ _ _).trans (.modifyAttributes base _ _ _)
  · exact .refl base d'

/-- Binding to paint changes attributes only. -/
theorem Binding.PaintBinding.interposed_family (base : NodeId) (d : Document) (asked : Bool)
    (root : NodeId) :
    Interposed base d (bindFamily asked eligible PaintBinding.bind root d).1 := by
  rw [bindFamily_eq]
  refine bindAll_induct (I := fun d' => Interposed base d d') (fun d' kept id _ => ?_) (.refl base d)
  exact kept.trans ((Interposed.modifyAttributes base d' id _).trans (.modifyAttributes base _ id _))

namespace Template

open Binding

/-! ## Gathering the body -/

/-- Whether a child of the drawing is moved into its group. -/
def isShape (d : Document) (c : NodeId) : Bool :=
  d.isElement c && isBody d c

section

variable {d : Document} {svg : NodeId} (whole : d.WellFormed) (inside : svg < d.nodeCount)

include whole inside

omit inside in
/-- What is moved are the shapes. -/
theorem body_withGroup : body (withGroup d) svg = (d.children svg).filter (isShape d) := by
  simp only [body, Document.elementChildren, children_withGroup, List.filter_filter]
  refine List.filter_congr fun c child => ?_
  have kind := kind?_withGroup (Document.lt_of_parent? ((whole.mem_iff svg c).1 child))
  rw [isShape, Bool.and_comm, Document.isElement_congr kind, isBody, isBody,
    Document.tag?_congr kind]

omit inside in
/-- What is left below the `svg` element is not moved, and nothing is below other nodes. -/
theorem filter_body (n : NodeId) :
    (d.children n).filter (fun c => !(body (withGroup d) svg).contains c) =
      if n = svg then (d.children svg).filter fun c => !isShape d c else d.children n := by
  by_cases here : n = svg
  · rw [if_pos here, here]
    refine List.filter_congr fun c child => ?_
    have same : (body (withGroup d) svg).contains c = isShape d c := by
      rw [Bool.eq_iff_iff, List.contains_iff_mem, body_withGroup whole, List.mem_filter]
      exact ⟨And.right, fun shape => ⟨child, shape⟩⟩
    rw [same]
  · rw [if_neg here]
    refine List.filter_eq_self.2 fun c child => ?_
    have absent : c ∉ body (withGroup d) svg := by
      intro member
      have up := parent?_of_mem_body whole.toLinked member
      rw [(whole.mem_iff n c).1 child] at up
      exact here (Option.some.inj up)
    simpa using absent

/-- The shapes are moved into a new group behind what is left. -/
theorem children_gather (n : NodeId) :
    (gather d svg).1.children n =
      if n = svg then (d.children svg).filter (fun c => !isShape d c) ++ [d.nodeCount]
      else if n = d.nodeCount then (d.children svg).filter (isShape d)
      else d.children n := by
  have old {p c : NodeId} (child : c ∈ d.children p) : c < d.nodeCount :=
    Document.lt_of_parent? ((whole.mem_iff p c).1 child)
  have shapes : body (withGroup d) svg = (d.children svg).filter (isShape d) :=
    body_withGroup whole
  have below : ∀ c ∈ body (withGroup d) svg, c < (withGroup d).nodeCount := fun c member =>
    lt_nodeCount_withGroup (Document.lt_of_parent? (parent?_of_mem_body whole.toLinked member))
  have once : (body (withGroup d) svg).Nodup := shapes ▸ (whole.nodup svg).filter _
  have links := linked_withGroup whole.toLinked
  have svg_below : svg < ((withGroup d).appendAll d.nodeCount (body (withGroup d) svg)).nodeCount := by
    rw [Document.nodeCount_appendAll]
    exact lt_nodeCount_withGroup inside
  have no_group {cs : List NodeId} (olds : ∀ c ∈ cs, c < d.nodeCount) :
      cs.filter (· != d.nodeCount) = cs := by
    refine List.filter_eq_self.2 fun c member => ?_
    simpa using Nat.ne_of_lt (olds c member)
  rw [gather_eq, moveBody_eq,
    (links.appendAll group_lt_nodeCount below).children_appendChild svg_below,
    links.children_appendAll group_lt_nodeCount below once, children_withGroup, filter_body whole]
  by_cases here : n = svg
  · have other : n ≠ d.nodeCount := here ▸ Nat.ne_of_lt inside
    rw [if_pos here, if_pos here, if_pos here, if_neg other, List.append_nil,
      no_group fun c member => old (List.mem_filter.1 member).1]
  · rw [if_neg here, if_neg here, if_neg here, List.append_nil]
    by_cases last : n = d.nodeCount
    · have bare : d.children n = [] := Document.children_eq_nil (Nat.le_of_eq last.symm)
      rw [if_pos last, if_pos last, bare, List.nil_append, shapes,
        no_group fun c member => old (List.mem_filter.1 member).1]
    · rw [if_neg last, if_neg last, List.append_nil, no_group fun c child => old child]

/-- With the new group out of the way the texts and styles come before the shapes. -/
theorem spliced_gather (n : NodeId) (old : n < d.nodeCount) :
    (gather d svg).1.spliced (fun m => decide (d.nodeCount ≤ m)) n =
      if n = svg then
        (d.children svg).filter (fun c => !isShape d c) ++ (d.children svg).filter (isShape d)
      else d.children n := by
  have children := children_gather whole inside
  have whole' := wellFormed_gather whole inside
  generalize (gather d svg).1 = made at *
  let gone := fun m => decide (d.nodeCount ≤ m)
  have stays {n c : NodeId} (child : c ∈ d.children n) : gone c = false := by
    have below : c < d.nodeCount := Document.lt_of_parent? ((whole.mem_iff n c).1 child)
    simpa [gone] using below
  have listed {cs : List NodeId} (stay : ∀ c ∈ cs, gone c = false) :
      cs.flatMap (fun c => if gone c then made.spliced gone c else [c]) = cs := by
    induction cs with
    | nil => rfl
    | cons c rest ih =>
        have later := ih fun b member => stay b (List.mem_cons_of_mem c member)
        rw [List.flatMap_cons, later, stay c List.mem_cons_self]
        rfl
  rw [whole'.spliced_eq, children]
  by_cases here : n = svg
  · subst here
    have new : gone d.nodeCount = true := by simp [gone]
    have group : made.spliced gone d.nodeCount = (d.children n).filter (isShape d) := by
      rw [whole'.spliced_eq, children, if_neg (Ne.symm (Nat.ne_of_lt old)), if_pos rfl]
      exact listed fun c member => stays (List.mem_filter.1 member).1
    rw [if_pos rfl, if_pos rfl, List.flatMap_append,
      listed fun c member => stays (List.mem_filter.1 member).1]
    simp [gone, group]
  · rw [if_neg here, if_neg here, if_neg (Nat.ne_of_lt old)]
    exact listed fun c child => stays child

end

/-! ## The groups of a drawing -/

/-- The groups that were made for a drawing: that of its body, and two around each moved
element. -/
def groups (t : Template) : List NodeId :=
  t.instanceGroup :: t.transforms.flatMap TransformBinding.groups

/-- A drawing holds the tree it was made from. -/
structure Preserves (d : Document) (svg : NodeId) (t : Template) : Prop where
  root : t.document.root = d.root
  tag? : ∀ n < d.nodeCount, t.document.tag? n = d.tag? n
  text : ∀ n < d.nodeCount, ∀ s,
    t.document.kind? n = some (.text s) ↔ d.kind? n = some (.text s)
  /-- The groups are all the new nodes, each of them once. -/
  mem_groups : ∀ g, g ∈ t.groups ↔ d.nodeCount ≤ g ∧ g < t.document.nodeCount
  once : t.groups.Nodup
  grouped : ∀ g ∈ t.groups, t.document.tag? g = some "g"
  /-- Without the groups all children are as they were, but below the `svg` element texts and
  styles come first. -/
  spliced : ∀ n < d.nodeCount, t.document.spliced t.groups.contains n =
    if n = svg then
      (d.children svg).filter (fun c => !isShape d c) ++ (d.children svg).filter (isShape d)
    else d.children n
  encloses : ∀ b ∈ t.transforms, b.Encloses t.document

section

variable (settings : Settings) {d : Document} {svg : NodeId} (whole : d.WellFormed)
  (inside : svg < d.nodeCount)

include whole inside

/-- Elements of the drawing are bound to transforms. -/
theorem grouped_boundTransforms :
    ∃ ids, (∀ id ∈ ids, (boundTexts settings d svg).1.isElement id = true) ∧
      TransformBinding.Grouped (boundTexts settings d svg).1 ids (boundTransforms settings d svg) := by
  let start := (boundTexts settings d svg).1
  let root := (gathered settings d svg).2
  let ids := if settings.families.transforms then TransformBinding.eligible start root else []
  have whole₁ : start.WellFormed := wellFormed_boundTexts settings whole inside
  have moved : boundTransforms settings d svg = bindAll TransformBinding.bind start ids :=
    bindFamily_eq _ _ root start
  obtain ⟨nodup, elements⟩ :=
    TransformBinding.asked_elements whole₁ settings.families.transforms root
  exact ⟨ids, elements, moved ▸ TransformBinding.grouped_bindAll whole₁ elements nodup⟩

/-- The groups are numbered from the number of nodes of the text that was read. -/
theorem groups_ofDocument :
    let t := ofDocument settings d svg
    t.groups = List.range' d.nodeCount t.groups.length ∧
      t.document.nodeCount = d.nodeCount + t.groups.length ∧
      (∀ g ∈ t.groups, t.document.tag? g = some "g") ∧
      ∀ b ∈ t.transforms, b.Encloses t.document := by
  intro t
  let start := (boundTexts settings d svg).1
  let moved := boundTransforms settings d svg
  have count := nodeCount_boundTexts settings whole inside
  have same₁ : SameTree (gathered settings d svg).1 start :=
    (sameTree_boundTexts settings whole inside).1
  have same₂ : SameTree moved.1 t.document := sameTree_boundPaint settings whole inside
  obtain ⟨ids, -, bound⟩ := grouped_boundTransforms settings whole inside
  have numbered := bound.groups
  have total := bound.nodeCount
  have transforms : t.transforms = moved.2 := (families_of (ofDocument_bindings settings d svg)).2.1
  rw [count] at numbered total
  have groups_eq : t.groups = d.nodeCount :: moved.2.flatMap TransformBinding.groups := by
    rw [groups, transforms]
    exact congrArg (· :: _) (gathered_snd settings d svg)
  have length : t.groups.length = 1 + 2 * ids.length := by
    rw [groups_eq, numbered, List.length_cons, List.length_range', Nat.add_comm]
  refine ⟨?_, ?_, fun g member => ?_, fun b member => ?_⟩
  · rw [length, groups_eq, numbered, Nat.add_comm 1]
    rfl
  · rw [same₂.nodeCount, total, length, Nat.add_assoc]
  · rw [same₂.tag?]
    rw [groups_eq] at member
    rcases List.mem_cons.1 member with rfl | later
    · have here : d.nodeCount < start.nodeCount := by
        rw [count]
        exact Nat.lt_succ_self _
      rw [bound.tag? _ here, same₁.tag?, tag?_gathered]
    · exact bound.grouped g later
  · rw [transforms] at member
    obtain ⟨only, only'⟩ := bound.encloses b member
    exact ⟨(same₂.children _).trans only, (same₂.children _).trans only'⟩

/-- **The drawing that is made ready holds the tree that was read.** -/
theorem preserves_ofDocument : (ofDocument settings d svg).Preserves d svg := by
  let t := ofDocument settings d svg
  let c := d.clean svg settings.repairs
  have cleaned : SameTree d c := Markup.Document.sameTree_clean d svg settings.repairs
  have cleaned_text : Interposed d.nodeCount d c :=
    Markup.Document.clean_induct (.refl _) .trans (.modifyAttributes _) d svg settings.repairs
  have whole_c : c.WellFormed := cleaned.wellFormed whole
  have inside_c : svg < c.nodeCount := by rwa [cleaned.nodeCount]
  obtain ⟨numbered, total, grouped, encloses⟩ := groups_ofDocument settings whole inside
  have bound : Interposed d.nodeCount (gathered settings d svg).1 t.document := by
    have whole₁ := wellFormed_boundTexts settings whole inside
    have texts : Interposed d.nodeCount (gathered settings d svg).1 (boundTexts settings d svg).1 :=
      WordingBinding.interposed_family _ _ _ _
    have moves : Interposed d.nodeCount (boundTexts settings d svg).1
        (boundTransforms settings d svg).1 :=
      (TransformBinding.grouping_interposed d.nodeCount).family whole₁ _ _
    exact (texts.trans moves).trans (PaintBinding.interposed_family _ _ _ _)
  have old {n : NodeId} (before : n < d.nodeCount) : n < (gathered settings d svg).1.nodeCount := by
    rw [nodeCount_gathered]
    exact Nat.lt_succ_of_lt before
  have kind {n : NodeId} (before : n < d.nodeCount) :
      (gathered settings d svg).1.kind? n = c.kind? n := by
    refine kind?_gather ?_
    rwa [cleaned.nodeCount]
  have mem_groups (g : NodeId) :
      g ∈ t.groups ↔ d.nodeCount ≤ g ∧ g < t.document.nodeCount := by
    rw [numbered, total]
    exact List.mem_range'_1
  refine {
    root := bound.root.trans (root_gather.trans cleaned.root)
    tag? := fun n before => ?_
    text := fun n before s => ?_
    mem_groups := mem_groups
    once := ?_
    grouped := grouped
    spliced := fun n before => ?_
    encloses := encloses }
  · rw [bound.tag? n (old before), Document.tag?_congr (kind before), cleaned.tag?]
  · rw [bound.text n (old before), kind before, cleaned_text.text n before]
  · rw [numbered]
    exact List.nodup_range'
  · have links : t.document.Linked := (captured_ofDocument settings whole inside).1.whole.toLinked
    have gone : ∀ m < t.document.nodeCount, t.groups.contains m = decide (d.nodeCount ≤ m) := by
      intro m below
      rw [Bool.eq_iff_iff, List.contains_iff_mem, mem_groups]
      simpa using fun _ => below
    have low : d.nodeCount ≤ (gathered settings d svg).1.nodeCount := by
      rw [nodeCount_gathered]
      exact Nat.le_succ _
    have shape : isShape c = isShape d := by
      funext m
      rw [isShape, isShape, cleaned.isElement, isBody, isBody, cleaned.tag?]
    have gathered_eq := spliced_gather whole_c inside_c n (by rwa [cleaned.nodeCount])
    rw [cleaned.nodeCount, cleaned.children, cleaned.children, shape] at gathered_eq
    rw [Document.spliced_congr links gone, bound.spliced low n (old before)]
    exact gathered_eq

end

/-! ## Drawings to which a table was applied -/

/-- A bound text is a node of the text that was read. -/
theorem worded_ofDocument {settings : Settings} {d : Document} {svg : NodeId} (whole : d.WellFormed)
    (inside : svg < d.nodeCount) :
    ∀ n, (ofDocument settings d svg).IsWorded n → n < d.nodeCount := by
  rintro n ⟨b, known, rfl⟩
  let made := gathered settings d svg
  have whole₀ : made.1.WellFormed := wellFormed_gathered settings whole inside
  have group : made.2 = d.nodeCount := gathered_snd settings d svg
  have count : made.1.nodeCount = d.nodeCount + 1 := nodeCount_gathered settings d svg
  have bound : (ofDocument settings d svg).elements = _ := elements_ofDocument whole inside
  have listed : b.element ∈ WordingBinding.eligible made.1 made.2 := by
    have found := List.mem_map_of_mem (f := WordingBinding.element) known
    rw [(Prod.mk.inj bound).1] at found
    split at found
    · exact found
    · cases found
  obtain ⟨rank, ranked⟩ := whole₀.ranked
  obtain ⟨text, below, -, part, -⟩ := mem_eligible_wording.1 listed
  have deeper : rank made.2 < rank text := ranked.lt_of_mem_descendants whole₀.toLinked below
  have element : made.1.isElement b.element = true ∧ rank made.2 < rank b.element := by
    rcases part with child | ⟨-, same⟩
    · obtain ⟨child, element⟩ := List.mem_filter.1 child
      have step := ranked b.element text ((whole₀.mem_iff text _).1 child)
      exact ⟨element, Nat.lt_trans deeper step⟩
    · rw [same]
      exact ⟨Document.isElement_of_mem_descendants whole₀.toLinked below, deeper⟩
  have other : b.element ≠ d.nodeCount := by
    intro same
    have here : made.2 = b.element := group.trans same.symm
    exact Nat.lt_irrefl _ (here ▸ element.2)
  have old : b.element < d.nodeCount + 1 := by
    rw [← count]
    exact Document.lt_of_isElement element.1
  exact Nat.lt_of_le_of_ne (Nat.le_of_lt_succ old) other

section

variable {t t' : Template} {d : Document} {svg : NodeId} (preserves : t.Preserves d svg)
  (old : ∀ n, t.IsWorded n → n < d.nodeCount)

include preserves old

theorem not_isWorded_of_mem_groups {g : NodeId} (member : g ∈ t.groups) : ¬ t.IsWorded g := by
  intro worded
  exact Nat.not_le_of_lt (old g worded) ((preserves.mem_groups g).1 member).1

/-- Moved elements stay in their groups. -/
theorem encloses_of_updated (updated : t.Updated t') :
    ∀ b ∈ t'.transforms, b.Encloses t'.document := by
  intro b' member
  have placed := List.mem_map_of_mem (f := TransformBinding.place) member
  rw [updated.places] at placed
  obtain ⟨b, known, same⟩ := List.mem_map.1 placed
  obtain ⟨element, base, carrier⟩ :
      b.element = b'.element ∧ b.base = b'.base ∧ b.carrier = b'.carrier := by
    simpa [TransformBinding.place] using same
  have kept {g : NodeId} (group : g ∈ b.groups) :
      t'.document.children g = t.document.children g := by
    have listed : g ∈ t.groups := List.mem_cons_of_mem _ (List.mem_flatMap.2 ⟨b, known, group⟩)
    exact (updated.document.children g).resolve_right fun worded =>
      not_isWorded_of_mem_groups preserves old listed worded.1
  obtain ⟨only, only'⟩ := preserves.encloses b known
  rw [TransformBinding.Encloses, ← element, ← base, ← carrier,
    kept (by simp [TransformBinding.groups]), kept (by simp [TransformBinding.groups])]
  exact ⟨only, only'⟩

/-- Only below a bound text there are other children than before. -/
theorem spliced_of_updated (whole : t.document.WellFormed) (whole' : t'.document.WellFormed)
    (updated : t.Updated t') (n : NodeId) (free : ¬ t.IsWorded n) :
    t'.document.spliced t.groups.contains n = t.document.spliced t.groups.contains n := by
  induction n using whole.induction_children with
  | step n ih =>
      have same : t'.document.children n = t.document.children n :=
        (updated.document.children n).resolve_right fun worded => free worded.1
      rw [whole'.spliced_eq, whole.spliced_eq, same]
      refine List.flatMap_congr fun c child => ?_
      cases group : t.groups.contains c with
      | false => rfl
      | true =>
          have listed : c ∈ t.groups := List.contains_iff_mem.1 group
          exact ih c child (not_isWorded_of_mem_groups preserves old listed)

end

end Template

namespace Session

open Binding

/-- **A load keeps the drawing.**  Inside the tree that a load builds are all nodes of the text
that was read, with their tags and texts; with the groups that the load made out of the way, which
are all the new nodes, they have their children in their order, but below the `svg` element the
texts and styles come before the shapes.  Each moved element is the only child of its base, which
is the only child of its carrier.  This tree is there behind the load if no table was waiting.  If
one was, the load applies it as well, which changes no more than every table does: other children
than these have the bound texts only, and the moved elements stay in their groups. -/
theorem load_keeps_tree {s fresh : Session} {text : String} {count : Nat}
    (loaded : s.load text = .ok (fresh, count)) :
    ∃ d svg t t', Document.ofText? (Text.trimmed text) = some d ∧
      d.findFirst? d.root "svg" = some svg ∧
      t.Preserves d svg ∧ fresh.template = some t' ∧
      t' = (if s.pending then t.apply s.table else t) ∧ t.Updated t' ∧
      (∀ n < d.nodeCount, ¬ t.IsWorded n → t'.document.spliced t.groups.contains n =
        t.document.spliced t.groups.contains n) ∧
      ∀ b ∈ t'.transforms, b.Encloses t'.document := by
  obtain ⟨t, made, rfl, -⟩ := load_eq_ok loaded
  have legible : t.Legible := (Template.captured_ofText made).1
  obtain ⟨d, svg, read, found, rfl⟩ := Template.ofText_eq_ok_iff.1 made
  have whole : d.WellFormed := Document.wellFormed_ofText? read
  have inside : svg < d.nodeCount := Document.lt_of_findFirst? found
  let t := Template.ofDocument s.settings d svg
  have preserves : t.Preserves d svg := Template.preserves_ofDocument s.settings whole inside
  have old := @Template.worded_ofDocument s.settings d svg whole inside
  let t' := if s.pending then t.apply s.table else t
  have held : (s.adopt t).template = some t' := by
    simp only [t', adopt]
    split <;> rfl
  obtain ⟨updated, whole'⟩ : t.Updated t' ∧ t'.document.WellFormed := by
    simp only [t']
    split
    · exact ⟨(Template.Updated.refl t).apply legible legible s.table,
        (legible.apply s.table).1.whole⟩
    · exact ⟨.refl t, legible.whole⟩
  exact ⟨d, svg, t, t', read, found, preserves, held, rfl, updated,
    fun n _ free => Template.spliced_of_updated preserves old legible.whole whole' updated n free,
    Template.encloses_of_updated preserves old updated⟩

/-- A text and a style behind a scaled group around a path that is moved. -/
def layeredDrawing : String :=
  "<svg><g id=\"\x7b\x7bs:Value\x7d\x7d\"><path id=\"\x7b\x7bp:Value\x7d\x7d\"/></g>a<style/></svg>"

/-- The theorem at such a drawing. -/
theorem load_keeps_tree_layered :
    ∃ fresh count d t, (start .default).load layeredDrawing = .ok (fresh, count) ∧
      fresh.template = some t ∧ t.Preserves d 0 ∧ d.children 0 = [1, 3, 4] ∧
      t.groups = [5, 6, 7, 8, 9] ∧ t.document.children 0 = [3, 4, 5] ∧
      t.document.spliced t.groups.contains 0 = [3, 4, 1] := by
  have usable : ((start .default).load layeredDrawing).toOption.map (fun loaded =>
      loaded.1.template.map fun t => (t.groups, t.document.children 0,
        t.document.spliced t.groups.contains 0)) =
      some (some ([5, 6, 7, 8, 9], [3, 4, 5], [3, 4, 1])) := by decide +kernel
  have shape : (Document.ofText? (Text.trimmed layeredDrawing)).map (fun d =>
      (d.findFirst? d.root "svg", d.children 0)) = some (some 0, [1, 3, 4]) := by decide +kernel
  obtain ⟨⟨fresh, count⟩, brought, seen⟩ := Option.map_eq_some_iff.1 usable
  have loaded : (start .default).load layeredDrawing = .ok (fresh, count) :=
    load_eq_of_toOption brought
  obtain ⟨d, svg, t, t', read, found, preserves, held, same, -⟩ := load_keeps_tree loaded
  obtain rfl : t' = t := same
  rw [read, Option.map_some, Option.some.injEq, Prod.mk.injEq, found, Option.some.injEq] at shape
  obtain ⟨rfl, children⟩ := shape
  simp only [held, Option.map_some, Option.some.injEq, Prod.mk.injEq] at seen
  obtain ⟨groups, behind, spliced⟩ := seen
  exact ⟨fresh, count, d, t', loaded, held, preserves, children, groups, behind, spliced⟩

/-- A load that finds a table waiting need not keep the texts. -/
theorem not_load_keeps_tree :
    ¬ ∀ (s fresh : Session) (text : String) (count : Nat) (d : Document) (svg : NodeId)
        (t : Template), s.load text = .ok (fresh, count) →
      Document.ofText? (Text.trimmed text) = some d → d.findFirst? d.root "svg" = some svg →
      fresh.template = some t → t.Preserves d svg := by
  intro keeps
  let s := (start .default).receive (regionMessage "South")
  have usable : (s.load regionDrawing).toOption.map (fun loaded =>
      loaded.1.template.map fun t => t.document.kind? 2) =
      some (some (some (.text "South"))) := by decide +kernel
  have shape : (Document.ofText? (Text.trimmed regionDrawing)).map (fun d =>
      (d.findFirst? d.root "svg", d.nodeCount, d.kind? 2)) =
      some (some 0, 3, some (.text "\x7b\x7bRegion\x7d\x7d")) := by decide +kernel
  obtain ⟨d, read, seen⟩ := Option.map_eq_some_iff.1 shape
  simp only [Prod.mk.injEq] at seen
  obtain ⟨found, count, kind⟩ := seen
  obtain ⟨⟨fresh, bindings⟩, brought, shown⟩ := Option.map_eq_some_iff.1 usable
  have loaded : s.load regionDrawing = .ok (fresh, bindings) := load_eq_of_toOption brought
  obtain ⟨t, held, worded⟩ := Option.map_eq_some_iff.1 shown
  have preserves := keeps s fresh regionDrawing bindings d 0 t loaded read found held
  have told := (preserves.text 2 (by rw [count]; decide) _).2 kind
  rw [worded] at told
  exact absurd told (by decide)

end Session

end Infographic
