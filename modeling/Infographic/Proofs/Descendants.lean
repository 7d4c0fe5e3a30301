/-
# Infographic.Proofs.Descendants -- every element below a node is listed once

In a well-formed document two nodes that are above the same node lie one above the other.
So the trees below two children have nothing in common, and in the list of all elements below
a node none comes behind itself or behind one that it is above of.
-/
import Infographic.Proofs.TreeShape
import Mathlib.Logic.Relation

namespace Infographic.Markup.Document

set_option autoImplicit false

variable {d : Document} {a b c n : NodeId} {rank : NodeId → Nat}

/-- The step from a node to its parent. -/
def Up (d : Document) (c p : NodeId) : Prop :=
  d.parent? c = some p

/-- The first node is the second or lies above it. -/
def Above (d : Document) (a n : NodeId) : Prop :=
  Relation.ReflTransGen d.Up n a

theorem Ranked.le_of_above (ranked : d.Ranked rank) (above : d.Above a n) : rank a ≤ rank n := by
  induction above with
  | refl => exact Nat.le_refl _
  | tail _ up ih => exact Nat.le_trans (Nat.le_of_lt (ranked _ _ up)) ih

/-- Two nodes above the same node lie one above the other. -/
theorem above_total (first : d.Above a n) (second : d.Above b n) : d.Above b a ∨ d.Above a b := by
  have unique : Relator.RightUnique d.Up := fun _ _ _ one two =>
    Option.some.inj (one.symm.trans two)
  exact Relation.ReflTransGen.total_of_right_unique unique first second

theorem above_of_child (links : d.Linked) (child : c ∈ d.children a) (above : d.Above c n) :
    d.Above a n :=
  Relation.ReflTransGen.tail above ((links.mem_iff a c).1 child)

/-- Of two children of one node neither lies above the other. -/
theorem eq_of_children_above (whole : d.WellFormed) {p : NodeId} (first : a ∈ d.children p)
    (second : b ∈ d.children p) (above : d.Above a b) : a = b := by
  obtain ⟨rank, ranked⟩ := whole.ranked
  have up := (whole.mem_iff p b).1 second
  have smaller := ranked a p ((whole.mem_iff p a).1 first)
  rcases Relation.ReflTransGen.cases_head above with same | ⟨q, step, rest⟩
  · exact same.symm
  · obtain rfl : q = p := Option.some.inj (Eq.symm (up.symm.trans step))
    have bounded := ranked.le_of_above rest
    exact absurd smaller (Nat.not_lt.2 bounded)

theorem mem_descendantsFrom (links : d.Linked) {fuel : Nat}
    (member : n ∈ d.descendantsFrom fuel a) :
    d.isElement n = true ∧ ∃ c ∈ d.elementChildren a, d.Above c n := by
  induction fuel generalizing a with
  | zero => simp [descendantsFrom] at member
  | succ fuel ih =>
      rw [descendantsFrom, List.mem_flatMap] at member
      obtain ⟨c, child, inside⟩ := member
      rcases List.mem_cons.1 inside with rfl | later
      · exact ⟨(List.mem_filter.1 child).2, n, child, .refl⟩
      · obtain ⟨element, b, grandchild, above⟩ := ih later
        exact ⟨element, c, child,
          above_of_child links (List.mem_filter.1 grandchild).1 above⟩

/-- Elements below a node rank higher. -/
theorem Ranked.lt_of_mem_descendants (ranked : d.Ranked rank) (links : d.Linked)
    (member : n ∈ d.descendants a) : rank a < rank n := by
  obtain ⟨-, c, child, above⟩ := mem_descendantsFrom links member
  have step := ranked c a ((links.mem_iff a c).1 (List.mem_filter.1 child).1)
  exact Nat.lt_of_lt_of_le step (ranked.le_of_above above)

/-- No element below a node is listed behind one that it is above of. -/
theorem pairwise_descendantsFrom (whole : d.WellFormed) (fuel : Nat) (a : NodeId) :
    (d.descendantsFrom fuel a).Pairwise fun m n => ¬ d.Above n m := by
  obtain ⟨rank, ranked⟩ := whole.ranked
  induction fuel generalizing a with
  | zero => simp [descendantsFrom]
  | succ fuel ih =>
      rw [descendantsFrom, List.pairwise_flatMap]
      have below {c m : NodeId} (member : m ∈ c :: d.descendantsFrom fuel c) : d.Above c m := by
        rcases List.mem_cons.1 member with rfl | later
        · exact .refl
        · obtain ⟨-, b, child, above⟩ := mem_descendantsFrom whole.toLinked later
          exact above_of_child whole.toLinked (List.mem_filter.1 child).1 above
      refine ⟨fun c child => List.pairwise_cons.2 ⟨fun m inside above => ?_, ih c⟩, ?_⟩
      · obtain ⟨-, b, grandchild, lower⟩ := mem_descendantsFrom whole.toLinked inside
        have smaller := ranked b c ((whole.mem_iff c b).1 (List.mem_filter.1 grandchild).1)
        have bounded := Nat.le_trans (ranked.le_of_above lower) (ranked.le_of_above above)
        exact absurd smaller (Nat.not_lt.2 bounded)
      · refine ((whole.nodup a).filter _).imp_of_mem fun first second apart => ?_
        intro m one n two above
        have left := (List.mem_filter.1 first).1
        have right := (List.mem_filter.1 second).1
        -- both children are above `m`, so they are the same
        rcases above_total (below one) (Relation.ReflTransGen.trans above (below two)) with up | up
        · exact apart (eq_of_children_above whole right left up).symm
        · exact apart (eq_of_children_above whole left right up)

theorem pairwise_descendants (whole : d.WellFormed) (a : NodeId) :
    (d.descendants a).Pairwise fun m n => ¬ d.Above n m :=
  pairwise_descendantsFrom whole _ a

/-- No element below a node is listed twice. -/
theorem nodup_descendants (whole : d.WellFormed) (a : NodeId) : (d.descendants a).Nodup := by
  refine (pairwise_descendants whole a).imp fun apart same => ?_
  subst same
  exact apart .refl

theorem isElement_of_mem_descendants (links : d.Linked) (member : n ∈ d.descendants a) :
    d.isElement n = true :=
  (mem_descendantsFrom links member).1

/-- The first element with a tag is a node of the document. -/
theorem lt_of_findFirst? {tag : String} (found : d.findFirst? a tag = some n) :
    n < d.nodeCount := by
  have tagged : d.tag? n = some tag := by
    unfold findFirst? at found
    split at found
    · rename_i here
      rwa [← Option.some.inj found]
    · simpa using List.find?_some found
  exact lt_of_isElement (by rw [isElement, tagged]; rfl)

end Infographic.Markup.Document
