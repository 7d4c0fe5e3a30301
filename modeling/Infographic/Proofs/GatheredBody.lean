/-
# Infographic.Proofs.GatheredBody -- the body of a drawing in a group of its own

A load adds an empty group to the document (`Template.withGroup`) and moves the shapes of the
drawing into it one after the other (`Template.moveBody`).  The nodes of the text that was read
stay what they are, and only the group is new (`Template.kind?_gather`, `Template.tag?_gather`).
The document stays well-formed (`Template.wellFormed_gather`), since the group ranks between the
`svg` element and its children.
-/
import Infographic.Proofs.TreeShape
import Infographic.Session.Template

namespace Infographic

set_option autoImplicit false

open Markup (Document NodeId)

namespace Markup.Document

/-! ## Moving several nodes -/

theorem root_appendChild (d : Document) (p c : NodeId) : (d.appendChild p c).root = d.root := by
  unfold appendChild detach
  cases d.parent? c <;> rfl

/-- Some nodes are moved to the end of a group, one after the other. -/
def appendAll (d : Document) (group : NodeId) (body : List NodeId) : Document :=
  body.foldl (fun d c => d.appendChild group c) d

variable {d : Document} {group : NodeId} {body : List NodeId}

theorem appendAll_cons (c : NodeId) (rest : List NodeId) :
    d.appendAll group (c :: rest) = (d.appendChild group c).appendAll group rest :=
  rfl

@[simp] theorem nodeCount_appendAll : (d.appendAll group body).nodeCount = d.nodeCount := by
  induction body generalizing d with
  | nil => rfl
  | cons c rest ih => exact ih.trans nodeCount_appendChild

@[simp] theorem root_appendAll : (d.appendAll group body).root = d.root := by
  induction body generalizing d with
  | nil => rfl
  | cons c rest ih => exact ih.trans (root_appendChild d group c)

@[simp] theorem kind?_appendAll (n : NodeId) : (d.appendAll group body).kind? n = d.kind? n := by
  induction body generalizing d with
  | nil => rfl
  | cons c rest ih => exact ih.trans (kind?_appendChild n)

theorem Ranked.appendAll {rank : NodeId → Nat} (ranked : d.Ranked rank)
    (above : ∀ c ∈ body, c < d.nodeCount ∧ rank group < rank c) :
    (d.appendAll group body).Ranked rank := by
  induction body generalizing d with
  | nil => exact ranked
  | cons c rest ih =>
      obtain ⟨below, smaller⟩ := above c List.mem_cons_self
      refine ih (ranked.appendChild below smaller) fun b member => ?_
      rw [nodeCount_appendChild]
      exact above b (List.mem_cons_of_mem c member)

namespace Linked

variable (links : d.Linked) (inside : group < d.nodeCount) (below : ∀ c ∈ body, c < d.nodeCount)

include links inside below

theorem appendAll : (d.appendAll group body).Linked := by
  induction body generalizing d with
  | nil => exact links
  | cons c rest ih =>
      refine ih (links.appendChild (below c List.mem_cons_self) inside)
        (by rwa [nodeCount_appendChild]) fun b member => ?_
      rw [nodeCount_appendChild]
      exact below b (List.mem_cons_of_mem c member)

/-- Nodes that are moved into a group stand there in the order in which they are moved. -/
theorem children_appendAll (once : body.Nodup) (n : NodeId) :
    (d.appendAll group body).children n =
      (d.children n).filter (fun c => !body.contains c) ++ if n = group then body else [] := by
  induction body generalizing d with
  | nil => simp [Document.appendAll]
  | cons c rest ih =>
      obtain ⟨absent, once'⟩ := List.nodup_cons.1 once
      have later := ih (links.appendChild (below c List.mem_cons_self) inside)
        (by rwa [nodeCount_appendChild])
        (fun b member => by
          rw [nodeCount_appendChild]
          exact below b (List.mem_cons_of_mem c member)) once'
      have kept : [c].filter (fun c => !rest.contains c) = [c] := by simpa using absent
      have same : (fun b => !rest.contains b && b != c) = fun b => !(c :: rest).contains b := by
        funext b
        by_cases here : b = c <;> simp [here, Bool.and_comm]
      rw [appendAll_cons, later, links.children_appendChild inside, List.filter_append,
        List.filter_filter, same]
      by_cases here : n = group
      · rw [if_pos here, if_pos here, if_pos here, kept, List.append_assoc,
          List.singleton_append]
      · simp [here]

end Linked

end Markup.Document

namespace Template

open Markup.Document

variable {d : Document} {svg n : NodeId}

/-! ## The group -/

/-- A drawing with an empty group for its body. -/
def withGroup (d : Document) : Document :=
  ((d.createElement "g").1.setAttribute d.nodeCount "class" instanceClass).setAttribute
    d.nodeCount "id" instanceId

theorem sameTree_withGroup : SameTree (d.createElement "g").1 (withGroup d) :=
  (SameTree.setAttribute _ _ _ _).trans (.setAttribute _ _ _ _)

@[simp] theorem nodeCount_withGroup : (withGroup d).nodeCount = d.nodeCount + 1 := by
  rw [sameTree_withGroup.nodeCount, createElement, nodeCount_create]

theorem lt_nodeCount_withGroup (old : n < d.nodeCount) : n < (withGroup d).nodeCount := by
  rw [nodeCount_withGroup]
  exact Nat.lt_succ_of_lt old

theorem group_lt_nodeCount : d.nodeCount < (withGroup d).nodeCount := by
  rw [nodeCount_withGroup]
  exact Nat.lt_succ_self _

@[simp] theorem parent?_withGroup (n : NodeId) : (withGroup d).parent? n = d.parent? n := by
  rw [sameTree_withGroup.parent?, createElement, parent?_create]

@[simp] theorem children_withGroup (n : NodeId) : (withGroup d).children n = d.children n := by
  rw [sameTree_withGroup.children, createElement, children_create]

theorem kind?_withGroup (old : n < d.nodeCount) : (withGroup d).kind? n = d.kind? n := by
  have other : ¬ d.nodeCount = n := Ne.symm (Nat.ne_of_lt old)
  simp only [withGroup, setAttribute, kind?_modifyAttributes, if_neg other]
  rw [createElement, kind?_create, if_neg (Nat.ne_of_lt old)]

theorem tag?_withGroup : (withGroup d).tag? d.nodeCount = some "g" := by
  rw [sameTree_withGroup.tag?, Document.tag?, createElement, kind?_create, if_pos rfl]

theorem linked_withGroup (links : d.Linked) : (withGroup d).Linked :=
  sameTree_withGroup.linked (links.create _)

/-! ## Moving the body -/

/-- The children of the drawing that are moved. -/
def body (d : Document) (svg : NodeId) : List NodeId :=
  (d.elementChildren svg).filter (isBody d)

/-- A drawing with its body moved into a group at its end. -/
def moveBody (svg group : NodeId) (d : Document) : Document :=
  (((d.elementChildren svg).filter (isBody d)).foldl (fun d c => d.appendChild group c)
    d).appendChild svg group

theorem moveBody_eq (group : NodeId) :
    moveBody svg group d = (d.appendAll group (body d svg)).appendChild svg group :=
  rfl

theorem gather_eq : gather d svg = (moveBody svg d.nodeCount (withGroup d), d.nodeCount) :=
  rfl

theorem nodeCount_gather : (gather d svg).1.nodeCount = d.nodeCount + 1 := by
  rw [gather_eq, moveBody_eq, nodeCount_appendChild, nodeCount_appendAll, nodeCount_withGroup]

theorem group_lt_nodeCount_gather : (gather d svg).2 < (gather d svg).1.nodeCount := by
  rw [nodeCount_gather]
  exact Nat.lt_succ_self _

theorem root_gather : (gather d svg).1.root = d.root := by
  rw [gather_eq, moveBody_eq, root_appendChild, root_appendAll]
  exact sameTree_withGroup.root

/-- The nodes of the text that was read stay what they are. -/
theorem kind?_gather (old : n < d.nodeCount) : (gather d svg).1.kind? n = d.kind? n := by
  rw [gather_eq, moveBody_eq, kind?_appendChild, kind?_appendAll, kind?_withGroup old]

theorem tag?_gather : (gather d svg).1.tag? d.nodeCount = some "g" := by
  rw [gather_eq, moveBody_eq, Document.tag?, kind?_appendChild, kind?_appendAll]
  exact tag?_withGroup

/-! ## Ranks -/

/-- What is moved are children of the drawing. -/
theorem parent?_of_mem_body (links : d.Linked) {c : NodeId} (member : c ∈ body (withGroup d) svg) :
    d.parent? c = some svg := by
  have child := (List.mem_filter.1 (List.mem_filter.1 member).1).1
  rw [children_withGroup] at child
  exact (links.mem_iff svg c).1 child

/-- Twice the old ranks leave room for a new node below one node and above its children. -/
theorem exists_ranked_group {d d₁ : Document} {svg : NodeId} {rank : NodeId → Nat}
    (links : d.Linked) (ranked : d.Ranked rank) (inside : svg < d.nodeCount)
    (same : ∀ n, d₁.parent? n = d.parent? n) :
    ∃ rank', d₁.Ranked rank' ∧ rank' svg < rank' d.nodeCount ∧
      ∀ c, d.parent? c = some svg → rank' d.nodeCount < rank' c := by
  let rank' := fun n => if n = d.nodeCount then 2 * rank svg + 1 else 2 * rank n
  have group : rank' d.nodeCount = 2 * rank svg + 1 := if_pos rfl
  have apart {n : NodeId} (old : n < d.nodeCount) : rank' n = 2 * rank n :=
    if_neg (Nat.ne_of_lt old)
  refine ⟨rank', fun c p up => ?_, ?_, fun c up => ?_⟩
  · rw [same] at up
    have step := ranked c p up
    rw [apart (lt_of_parent? up), apart (links.lt_of_parent up)]
    omega
  · rw [group, apart inside]
    omega
  · have step := ranked c svg up
    rw [group, apart (lt_of_parent? up)]
    omega

theorem wellFormed_gather (whole : d.WellFormed) (inside : svg < d.nodeCount) :
    (gather d svg).1.WellFormed := by
  obtain ⟨links, rank, ranked⟩ := whole
  obtain ⟨rank', ranked', smaller, greater⟩ :=
    exists_ranked_group links ranked inside parent?_withGroup
  have above : ∀ c ∈ body (withGroup d) svg,
      c < (withGroup d).nodeCount ∧ rank' d.nodeCount < rank' c := by
    intro c member
    have up := parent?_of_mem_body links member
    exact ⟨lt_nodeCount_withGroup (lt_of_parent? up), greater c up⟩
  have links' := (linked_withGroup links).appendAll group_lt_nodeCount fun c member =>
    (above c member).1
  have group_below : d.nodeCount < ((withGroup d).appendAll d.nodeCount
      (body (withGroup d) svg)).nodeCount := by
    rw [nodeCount_appendAll]
    exact group_lt_nodeCount
  have svg_below := Nat.lt_trans inside group_below
  exact ⟨links'.appendChild group_below svg_below, rank',
    (ranked'.appendAll above).appendChild group_below smaller⟩

end Template

end Infographic
