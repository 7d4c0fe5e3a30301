/-
# Infographic.Proofs.TreeHeight -- a tree is never higher than it has nodes

Readers of the tree go down or up with as much fuel as there are nodes.  In a well-formed
document that is always enough, because counting the nodes of smaller rank gives every node a
depth, and counting those of greater rank a height, below the number of nodes.  So the readers
obey the equations one would write without fuel: `WellFormed.descendants_eq` and
`WellFormed.text_eq` on the way down, `WellFormed.mem_lineage_iff` on the way up.  An element is
listed below a node exactly if steps to child elements lead to it
(`WellFormed.mem_descendants_iff`).
-/
import Infographic.Proofs.Descendants
import Mathlib.Data.Finset.Card

namespace Infographic.Markup.Document

set_option autoImplicit false

variable {d : Document} {n c p : NodeId}

/-! ## Counting nodes -/

/-- How many nodes have a smaller key than a node. -/
def countBelow (d : Document) (key : NodeId → Int) (n : NodeId) : Nat :=
  ((Finset.range d.nodeCount).filter fun m => key m < key n).card

/-- The node itself is not counted. -/
theorem countBelow_lt_nodeCount (key : NodeId → Int) (inside : n < d.nodeCount) :
    d.countBelow key n < d.nodeCount := by
  have strict : (Finset.range d.nodeCount).filter (fun m => key m < key n) ⊂
      Finset.range d.nodeCount :=
    Finset.filter_ssubset.2 ⟨n, Finset.mem_range.2 inside, Int.lt_irrefl (key n)⟩
  have fewer := Finset.card_lt_card strict
  rwa [Finset.card_range] at fewer

theorem countBelow_lt {key : NodeId → Int} {a b : NodeId} (inside : a < d.nodeCount)
    (smaller : key a < key b) : d.countBelow key a < d.countBelow key b := by
  refine Finset.card_lt_card ((Finset.ssubset_iff_of_subset ?_).2 ⟨a, ?_, ?_⟩)
  · intro m member
    obtain ⟨known, less⟩ := Finset.mem_filter.1 member
    exact Finset.mem_filter.2 ⟨known, Int.lt_trans less smaller⟩
  · exact Finset.mem_filter.2 ⟨Finset.mem_range.2 inside, smaller⟩
  · intro member
    exact Int.lt_irrefl _ (Finset.mem_filter.1 member).2

/-- A height of every node, greater than those of its children. -/
structure Height (d : Document) (height : NodeId → Nat) : Prop where
  lt_of_child : ∀ n, ∀ c ∈ d.children n, height c < height n
  lt_nodeCount : ∀ n < d.nodeCount, height n < d.nodeCount

theorem WellFormed.exists_height (whole : d.WellFormed) : ∃ height, d.Height height := by
  obtain ⟨links, rank, ranked⟩ := whole
  refine ⟨d.countBelow fun n => -(rank n : Int), fun n c child => ?_, fun n inside =>
    countBelow_lt_nodeCount _ inside⟩
  have up := (links.mem_iff n c).1 child
  have step := ranked c n up
  exact countBelow_lt (lt_of_parent? up) (by omega)

/-- A depth of every node, greater than that of its parent. -/
theorem WellFormed.exists_depth (whole : d.WellFormed) :
    ∃ depth, d.Ranked depth ∧ ∀ n < d.nodeCount, depth n < d.nodeCount := by
  obtain ⟨links, rank, ranked⟩ := whole
  refine ⟨d.countBelow fun n => (rank n : Int), fun c p up => ?_, fun n inside =>
    countBelow_lt_nodeCount _ inside⟩
  have step := ranked c p up
  exact countBelow_lt (links.lt_of_parent up) (by omega)

/-- What holds of a node as soon as it holds of its children holds of every node. -/
theorem WellFormed.induction_children (whole : d.WellFormed) {P : NodeId → Prop}
    (step : ∀ n, (∀ c ∈ d.children n, P c) → P n) (n : NodeId) : P n := by
  obtain ⟨height, high⟩ := whole.exists_height
  induction reach : height n using Nat.strong_induction_on generalizing n with
  | _ k ih =>
      refine step n fun c child => ?_
      exact ih (height c) (reach ▸ high.lt_of_child n c child) c rfl

/-! ## Downwards -/

section

variable {height : NodeId → Nat}

/-- More fuel than the height lists no more elements. -/
theorem Height.descendantsFrom_eq (high : d.Height height) {fuel fuel' : Nat}
    (enough : height n < fuel) (enough' : height n < fuel') :
    d.descendantsFrom fuel n = d.descendantsFrom fuel' n := by
  induction fuel generalizing n fuel' with
  | zero => exact absurd enough (Nat.not_lt_zero _)
  | succ fuel ih =>
      cases fuel' with
      | zero => exact absurd enough' (Nat.not_lt_zero _)
      | succ fuel' =>
          rw [descendantsFrom, descendantsFrom]
          refine List.flatMap_congr fun c child => ?_
          have less := high.lt_of_child n c (List.mem_filter.1 child).1
          exact congrArg (c :: ·) (ih (by omega) (by omega))

theorem Height.textFrom_eq (high : d.Height height) {fuel fuel' : Nat}
    (enough : height n < fuel) (enough' : height n < fuel') :
    d.textFrom fuel n = d.textFrom fuel' n := by
  induction fuel generalizing n fuel' with
  | zero => exact absurd enough (Nat.not_lt_zero _)
  | succ fuel ih =>
      cases fuel' with
      | zero => exact absurd enough' (Nat.not_lt_zero _)
      | succ fuel' =>
          rw [textFrom, textFrom]
          have below : (d.children n).map (d.textFrom fuel) =
              (d.children n).map (d.textFrom fuel') := by
            refine List.map_congr_left fun c child => ?_
            have less := high.lt_of_child n c child
            exact ih (by omega) (by omega)
          rw [below]

end

/-- The elements below a node: each child that is one, with the elements below it. -/
theorem WellFormed.descendants_eq (whole : d.WellFormed) (n : NodeId) :
    d.descendants n = (d.elementChildren n).flatMap fun c => c :: d.descendants c := by
  obtain ⟨height, high⟩ := whole.exists_height
  by_cases inside : n < d.nodeCount
  · have low := high.lt_nodeCount n inside
    have one : d.descendants n = d.descendantsFrom (d.nodeCount + 1) n :=
      high.descendantsFrom_eq low (Nat.lt_succ_of_lt low)
    rw [one, descendantsFrom]
    rfl
  · have bare : d.elementChildren n = [] := by
      rw [elementChildren, children_eq_nil (Nat.le_of_not_lt inside)]
      rfl
    rw [bare, descendants]
    cases d.nodeCount with
    | zero => rfl
    | succ fuel =>
        rw [descendantsFrom, bare]
        rfl

/-- An element lies below a node, all nodes on the way being elements. -/
def Below (d : Document) (a n : NodeId) : Prop :=
  Relation.TransGen (fun p c => c ∈ d.elementChildren p) a n

theorem WellFormed.mem_descendants_iff (whole : d.WellFormed) :
    c ∈ d.descendants n ↔ d.Below n c := by
  induction n using whole.induction_children with
  | step n ih =>
      rw [whole.descendants_eq, List.mem_flatMap, Below, Relation.TransGen.head'_iff]
      refine exists_congr fun b => and_congr_right fun child => ?_
      rw [List.mem_cons, ih b (List.mem_filter.1 child).1, Relation.reflTransGen_iff_eq_or_transGen]
      rfl

/-- The elements found by a tag are those below the node that have it. -/
theorem WellFormed.mem_findAll_iff (whole : d.WellFormed) {tag : String} :
    c ∈ d.findAll n [tag] ↔ d.Below n c ∧ d.tag? c = some tag := by
  rw [findAll, List.mem_filter, whole.mem_descendants_iff, Option.any_eq_true]
  simp

/-- The text of a node that is none itself: the texts of its children. -/
theorem WellFormed.text_eq (whole : d.WellFormed) (n : NodeId) :
    d.text n = match d.kind? n with
      | some (.text s) => s
      | _ => String.join ((d.children n).map d.text) := by
  obtain ⟨height, high⟩ := whole.exists_height
  have below : (d.children n).map (d.textFrom d.nodeCount) = (d.children n).map d.text := by
    refine List.map_congr_left fun c child => ?_
    have less := high.lt_of_child n c child
    have low := high.lt_nodeCount n (lt_of_mem_children child)
    exact high.textFrom_eq (by omega) (by omega)
  rw [← below]
  rfl

/-! ## Upwards -/

/-- The nodes on the way up are the node and those above it. -/
theorem WellFormed.mem_lineage_iff (whole : d.WellFormed) : c ∈ d.lineage n ↔ d.Above c n := by
  obtain ⟨depth, ranked, shallow⟩ := whole.exists_depth
  have main (fuel : Nat) (n : NodeId) (enough : depth n < fuel) :
      c ∈ d.lineageFrom fuel n ↔ d.Above c n := by
    induction fuel generalizing n with
    | zero => exact absurd enough (Nat.not_lt_zero _)
    | succ fuel ih =>
        rw [lineageFrom, List.mem_cons, Above, Relation.ReflTransGen.cases_head_iff, eq_comm]
        refine or_congr Iff.rfl ?_
        cases up : d.parent? n with
        | none => simp [Up, up]
        | some p =>
            have less := ranked n p up
            simp [Up, up, ih p (by omega), Above]
  by_cases inside : n < d.nodeCount
  · exact main _ n (Nat.lt_succ_of_lt (shallow n inside))
  · have top : d.parent? n = none := parent?_eq_none (Nat.le_of_not_lt inside)
    rw [lineage, lineageFrom, top, Above, Relation.ReflTransGen.cases_head_iff]
    simp [Up, top, eq_comm]

end Infographic.Markup.Document
