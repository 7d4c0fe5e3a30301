/-
# Infographic.Proofs.SplicedTree -- trees with some nodes taken out of the way

Where a node is taken out of the way, its children stand in its place, and where one of these is
taken out of the way, too, the children of that one do (`Document.spliced`).  A group that is put
around a node and taken out of the way again leaves every other node with the children it had
(`spliced_wrap`), and so does a whole family that is bound to transforms
(`Binding.TransformBinding.grouping_interposed`).
-/
import Infographic.Proofs.Grouping
import Infographic.Proofs.TreeHeight

namespace Infographic

set_option autoImplicit false

open Markup (Document NodeId)

namespace Markup.Document

/-! ## Taking nodes out of the way -/

/-- The children of a node, where some nodes give way to their own children, with `fuel` for the
height. -/
def splicedFrom (d : Document) (gone : NodeId → Bool) : Nat → NodeId → List NodeId
  | 0, _ => []
  | fuel + 1, n =>
      (d.children n).flatMap fun c => if gone c then splicedFrom d gone fuel c else [c]

/-- The children of a node, where some nodes give way to their own children. -/
def spliced (d : Document) (gone : NodeId → Bool) (n : NodeId) : List NodeId :=
  d.splicedFrom gone d.nodeCount n

variable {d d' : Document} {gone gone' : NodeId → Bool} {id n : NodeId}

/-- More fuel than the height takes no more nodes out of the way. -/
theorem Height.splicedFrom_eq {height : NodeId → Nat} (high : d.Height height) {fuel fuel' : Nat}
    (enough : height n < fuel) (enough' : height n < fuel') :
    d.splicedFrom gone fuel n = d.splicedFrom gone fuel' n := by
  induction fuel generalizing n fuel' with
  | zero => exact absurd enough (Nat.not_lt_zero _)
  | succ fuel ih =>
      cases fuel' with
      | zero => exact absurd enough' (Nat.not_lt_zero _)
      | succ fuel' =>
          rw [splicedFrom, splicedFrom]
          refine List.flatMap_congr fun c child => ?_
          have less := high.lt_of_child n c child
          have same : d.splicedFrom gone fuel c = d.splicedFrom gone fuel' c :=
            ih (by omega) (by omega)
          rw [same]

theorem WellFormed.spliced_eq (whole : d.WellFormed) (gone : NodeId → Bool) (n : NodeId) :
    d.spliced gone n =
      (d.children n).flatMap fun c => if gone c then d.spliced gone c else [c] := by
  obtain ⟨height, high⟩ := whole.exists_height
  by_cases inside : n < d.nodeCount
  · have low := high.lt_nodeCount n inside
    have one : d.spliced gone n = d.splicedFrom gone (d.nodeCount + 1) n :=
      high.splicedFrom_eq low (Nat.lt_succ_of_lt low)
    rw [one, splicedFrom]
    rfl
  · have bare : d.children n = [] := children_eq_nil (Nat.le_of_not_lt inside)
    rw [bare, spliced]
    cases d.nodeCount with
    | zero => rfl
    | succ fuel =>
        rw [splicedFrom, bare]
        rfl

theorem spliced_congr (links : d.Linked) (same : ∀ c < d.nodeCount, gone c = gone' c)
    (n : NodeId) : d.spliced gone n = d.spliced gone' n := by
  have main (fuel : Nat) (n : NodeId) : d.splicedFrom gone fuel n = d.splicedFrom gone' fuel n := by
    induction fuel generalizing n with
    | zero => rfl
    | succ fuel ih =>
        rw [splicedFrom, splicedFrom]
        refine List.flatMap_congr fun c child => ?_
        rw [same c (lt_of_parent? ((links.mem_iff n c).1 child)), ih]
  exact main d.nodeCount n

theorem SameTree.spliced (same : SameTree d d') (gone : NodeId → Bool) (n : NodeId) :
    d'.spliced gone n = d.spliced gone n := by
  have main (fuel : Nat) (n : NodeId) : d'.splicedFrom gone fuel n = d.splicedFrom gone fuel n := by
    induction fuel generalizing n with
    | zero => rfl
    | succ fuel ih => rw [splicedFrom, splicedFrom, same.children, funext ih]
  rw [Document.spliced, Document.spliced, same.nodeCount, main]

/-- A group around a node that is taken out of the way again changes no children. -/
theorem spliced_wrap (whole : d.WellFormed) (below : id < d.nodeCount) (tag : String)
    (new : gone d.nodeCount = true) (n : NodeId) (old : n < d.nodeCount) :
    (d.wrap id tag).1.spliced gone n = d.spliced gone n := by
  let d' := (d.wrap id tag).1
  have whole' : d'.WellFormed := whole.wrap below tag
  induction n using whole.induction_children with
  | step n ih =>
      rw [whole'.spliced_eq, whole.spliced_eq, children_wrap whole.toLinked below,
        if_neg (Nat.ne_of_lt old), List.flatMap_map]
      refine List.flatMap_congr fun c child => ?_
      have same := ih c child (lt_of_parent? ((whole.mem_iff n c).1 child))
      rw [swap]
      by_cases here : c = id
      · subst here
        have group : d'.spliced gone d.nodeCount =
            if gone c then d'.spliced gone c else [c] := by
          rw [whole'.spliced_eq, children_wrap whole.toLinked below, if_pos rfl]
          simp [d']
        rw [if_pos rfl, if_pos new, group, same]
      · rw [if_neg here, same]

/-! ## Documents with new nodes put in -/

theorem root_wrap (d : Document) (id : NodeId) (tag : String) : (d.wrap id tag).1.root = d.root := by
  unfold wrap
  dsimp only
  rw [root_appendChild]
  split
  · split <;> rfl
  · rfl

/-- A document with the nodes of another one, which have their tags, their texts and, once the
nodes from `base` on are taken out of the way, their children. -/
structure Interposed (base : NodeId) (d d' : Document) : Prop where
  root : d'.root = d.root
  grown : d.nodeCount ≤ d'.nodeCount
  tag? : ∀ n < d.nodeCount, d'.tag? n = d.tag? n
  text : ∀ n < d.nodeCount, ∀ s, d'.kind? n = some (.text s) ↔ d.kind? n = some (.text s)
  spliced : base ≤ d.nodeCount → ∀ n < d.nodeCount,
    d'.spliced (fun m => decide (base ≤ m)) n = d.spliced (fun m => decide (base ≤ m)) n

namespace Interposed

variable {base : NodeId}

theorem refl (base : NodeId) (d : Document) : Interposed base d d :=
  ⟨rfl, Nat.le_refl _, fun _ _ => rfl, fun _ _ _ => Iff.rfl, fun _ _ _ => rfl⟩

theorem trans {d'' : Document} (first : Interposed base d d') (second : Interposed base d' d'') :
    Interposed base d d'' where
  root := second.root.trans first.root
  grown := Nat.le_trans first.grown second.grown
  tag? n old := (second.tag? n (Nat.lt_of_lt_of_le old first.grown)).trans (first.tag? n old)
  text n old s := (second.text n (Nat.lt_of_lt_of_le old first.grown) s).trans (first.text n old s)
  spliced low n old :=
    (second.spliced (Nat.le_trans low first.grown) n (Nat.lt_of_lt_of_le old first.grown)).trans
      (first.spliced low n old)

/-- Attributes have no place in the tree. -/
theorem modifyAttributes (base : NodeId) (d : Document) (id : NodeId)
    (f : List (String × String) → List (String × String)) :
    Interposed base d (d.modifyAttributes id f) := by
  have same := SameTree.modifyAttributes d id f
  refine ⟨same.root, Nat.le_of_eq same.nodeCount.symm, fun n _ => same.tag? n, fun n _ s => ?_,
    fun _ n _ => same.spliced _ n⟩
  rw [kind?_modifyAttributes]
  split
  · rcases d.kind? n with - | (⟨tag, as⟩ | s') <;> simp
  · rfl

theorem wrap (whole : d.WellFormed) (below : id < d.nodeCount) (tag : String) :
    Interposed base d (d.wrap id tag).1 := by
  have kind (n : NodeId) (old : n < d.nodeCount) : (d.wrap id tag).1.kind? n = d.kind? n := by
    rw [kind?_wrap whole.toLinked, if_neg (Nat.ne_of_lt old)]
  refine ⟨root_wrap d id tag, ?_, fun n old => tag?_congr (kind n old), fun n old s => ?_,
    fun low n old => ?_⟩
  · rw [nodeCount_wrap whole.toLinked]
    exact Nat.le_succ _
  · rw [kind n old]
  · exact spliced_wrap whole below tag (by simpa using low) n old

end Interposed

end Markup.Document

namespace Binding

open Markup.Document (Interposed)

/-- Groups and attributes put no old node elsewhere. -/
theorem TransformBinding.grouping_interposed (base : NodeId) :
    TransformBinding.Grouping (Interposed base) where
  refl := .refl base
  trans := .trans
  wrap whole below tag := .wrap whole below tag
  setAttribute d id _ _ _ := .modifyAttributes base d id _
  removeAttribute d id _ _ := .modifyAttributes base d id _

end Binding

end Infographic
