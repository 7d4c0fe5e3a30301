/-
# Infographic.Proofs.DocumentOfTree -- a tree that was read makes a well-formed document

Nodes are numbered in document order, so every node has a greater number than its parent.
The block of nodes that a tree adds to an arena is closed: all but its first node have their
parents in it, and all its nodes have their children in it.
-/
import Infographic.Proofs.TreeShape

namespace Infographic.Markup.Document

set_option autoImplicit false

/-- The parent of a node of an arena. -/
def parentIn (nodes : Array Node) (n : Nat) : Option Nat :=
  nodes[n]?.bind Node.parent

/-- The children of a node of an arena. -/
def childrenIn (nodes : Array Node) (n : Nat) : List Nat :=
  (nodes[n]?.map Node.children).getD []

/-- The nodes from `start` on have their children among themselves, behind them. -/
def ClosedFrom (start : Nat) (nodes : Array Node) : Prop :=
  ∀ p, start ≤ p → (childrenIn nodes p).Nodup ∧
    ∀ c ∈ childrenIn nodes p, p < c ∧ c < nodes.size ∧ parentIn nodes c = some p

/-- A node has its parent from `start` on, before it, and is listed there. -/
def HangsFrom (start : Nat) (nodes : Array Node) (n : Nat) : Prop :=
  ∃ p, parentIn nodes n = some p ∧ start ≤ p ∧ p < n ∧ n ∈ childrenIn nodes p

/-- What adding one tree does to an arena. -/
structure Grows (before after : Array Node) (parent : Option Nat) : Prop where
  size : before.size < after.size
  old : ∀ n < before.size, after[n]? = before[n]?
  first : parentIn after before.size = parent
  rest : ∀ n, before.size < n → n < after.size → HangsFrom before.size after n
  closed : ClosedFrom before.size after

/-- What adding trees below one node does to an arena. -/
structure GrowsBelow (before after : Array Node) (parent : Nat) (ids : List Nat) : Prop where
  size : before.size ≤ after.size
  old : ∀ n < before.size, after[n]? = before[n]?
  listed : ∀ c ∈ ids, before.size ≤ c ∧ c < after.size ∧ parentIn after c = some parent
  nodup : ids.Nodup
  rest : ∀ n, before.size ≤ n → n < after.size → n ∈ ids ∨ HangsFrom before.size after n
  closed : ClosedFrom before.size after

variable {before middle after : Array Node} {parent : Nat} {ids : List Nat}

theorem parentIn_congr {n : Nat} (same : after[n]? = middle[n]?) :
    parentIn after n = parentIn middle n := by
  rw [parentIn, parentIn, same]

theorem childrenIn_congr {n : Nat} (same : after[n]? = middle[n]?) :
    childrenIn after n = childrenIn middle n := by
  rw [childrenIn, childrenIn, same]

theorem childrenIn_eq_nil {n : Nat} (out : after.size ≤ n) : childrenIn after n = [] := by
  rw [childrenIn, Array.getElem?_eq_none out]
  rfl

/-- A tree and then more trees below the same node. -/
theorem GrowsBelow.cons (first : Grows before middle (some parent))
    (later : GrowsBelow middle after parent ids) :
    GrowsBelow before after parent (before.size :: ids) := by
  have one := first.size
  have two := later.size
  have kept {n : Nat} (inside : n < middle.size) : after[n]? = middle[n]? := later.old n inside
  refine ⟨by omega, fun n inside => ?_, fun c member => ?_, ?_, fun n low high => ?_,
    fun p low => ?_⟩
  · rw [later.old n (by omega), first.old n inside]
  · rcases List.mem_cons.1 member with rfl | inside
    · exact ⟨Nat.le_refl _, by omega, by rw [parentIn_congr (kept one), first.first]⟩
    · obtain ⟨low, high, up⟩ := later.listed c inside
      exact ⟨by omega, high, up⟩
  · refine List.nodup_cons.2 ⟨fun member => ?_, later.nodup⟩
    have low := (later.listed _ member).1
    omega
  · by_cases inside : n < middle.size
    · by_cases here : n = before.size
      · exact .inl (by simp [here])
      · obtain ⟨p, up, from_start, smaller, listed⟩ :=
          first.rest n (Nat.lt_of_le_of_ne low (Ne.symm here)) inside
        exact .inr ⟨p, by rw [parentIn_congr (kept inside), up], from_start, smaller,
          by rwa [childrenIn_congr (kept (Nat.lt_trans smaller inside))]⟩
    · rcases later.rest n (Nat.le_of_not_lt inside) high with
        listed | ⟨p, up, low', smaller, listed⟩
      · exact .inl (List.mem_cons_of_mem _ listed)
      · exact .inr ⟨p, up, by omega, smaller, listed⟩
  · by_cases inside : p < middle.size
    · obtain ⟨nodup, down⟩ := first.closed p low
      rw [childrenIn_congr (kept inside)]
      refine ⟨nodup, fun c member => ?_⟩
      obtain ⟨greater, below, up⟩ := down c member
      exact ⟨greater, by omega, by rw [parentIn_congr (kept below), up]⟩
    · exact later.closed p (Nat.le_of_not_lt inside)

theorem parentIn_adopt (nodes : Array Node) (first n : Nat) (cs : List NodeId) :
    parentIn (nodes.modify first fun node => { node with children := cs }) n =
      parentIn nodes n := by
  rw [parentIn, Array.getElem?_modify, parentIn]
  split
  · cases nodes[n]? <;> rfl
  · rfl

theorem childrenIn_adopt {nodes : Array Node} {first : Nat} (inside : first < nodes.size) (n : Nat)
    (cs : List NodeId) :
    childrenIn (nodes.modify first fun node => { node with children := cs }) n =
      if n = first then cs else childrenIn nodes n := by
  rw [childrenIn, Array.getElem?_modify, childrenIn]
  by_cases here : n = first
  · rw [if_pos here, if_pos here.symm, here, Array.getElem?_eq_getElem inside]
    rfl
  · rw [if_neg here, if_neg (Ne.symm here)]

/-- An element above trees that were added below it. -/
theorem Grows.element {kind : NodeKind} {up : Option Nat}
    (below : GrowsBelow (before.push ⟨kind, up, []⟩) after before.size ids) :
    Grows before (after.modify before.size fun node => { node with children := ids }) up := by
  have size : before.size + 1 ≤ after.size := by simpa using below.size
  have whole : (after.modify before.size fun node => { node with children := ids }).size =
      after.size := Array.size_modify
  have parents (n : Nat) := parentIn_adopt after before.size n ids
  have children (n : Nat) := childrenIn_adopt size n ids
  refine ⟨by omega, fun n inside => ?_, ?_, fun n low high => ?_, fun p low => ?_⟩
  · rw [Array.getElem?_modify, if_neg (by omega), below.old n (by simpa using by omega),
      Array.getElem?_push, if_neg (by omega)]
  · rw [parents, parentIn, below.old _ (by simp), Array.getElem?_push_size]
    rfl
  · have after_first : (before.push ⟨kind, up, []⟩).size ≤ n := by
      rw [Array.size_push]
      exact low
    rcases below.rest n after_first (by omega) with listed | ⟨p, found, start, less, there⟩
    · obtain ⟨-, -, found⟩ := below.listed n listed
      exact ⟨before.size, by rw [parents, found], Nat.le_refl _, low,
        by simpa [children] using listed⟩
    · have apart : p ≠ before.size := by
        have later : before.size + 1 ≤ p := by simpa using start
        omega
      exact ⟨p, by rw [parents, found], by simp at start; omega, less,
        by rwa [children, if_neg apart]⟩
  · rw [children, whole]
    by_cases here : p = before.size
    · rw [if_pos here]
      refine ⟨below.nodup, fun c member => ?_⟩
      obtain ⟨start, high, found⟩ := below.listed c member
      have later : before.size + 1 ≤ c := by simpa using start
      exact ⟨by omega, high, by rw [parents, found, here]⟩
    · rw [if_neg here]
      have start : (before.push ⟨kind, up, []⟩).size ≤ p := by
        rw [Array.size_push]
        omega
      obtain ⟨nodup, down⟩ := below.closed p start
      exact ⟨nodup, fun c member => by rw [parents]; exact down c member⟩

/-- A text has no children. -/
theorem Grows.text (before : Array Node) (parent : Option Nat) (s : String) :
    Grows before (before.push ⟨.text s, parent, []⟩) parent := by
  have bare (n : Nat) (low : before.size ≤ n) :
      childrenIn (before.push ⟨.text s, parent, []⟩) n = [] := by
    by_cases here : n = before.size
    · rw [here, childrenIn, Array.getElem?_push_size]
      rfl
    · exact childrenIn_eq_nil (by rw [Array.size_push]; omega)
  refine ⟨by simp, fun n inside => ?_, ?_, fun n low high => ?_, fun p low => ?_⟩
  · rw [Array.getElem?_push, if_neg (by omega)]
  · rw [parentIn, Array.getElem?_push_size]
    rfl
  · rw [Array.size_push] at high
    omega
  · rw [bare p low]
    simp

mutual

theorem grows_addTree (before : Array Node) (parent : Option Nat) :
    (t : Tree) → Grows before (addTree before parent t) parent
  | .element tag as children => by
      have below := grows_addTrees (before.push ⟨.element tag as, parent, []⟩) before.size children
      rw [addTree]
      exact Grows.element below
  | .text s => by
      rw [addTree]
      exact Grows.text before parent s

theorem grows_addTrees (before : Array Node) (parent : Nat) :
    (ts : List Tree) →
      GrowsBelow before (addTrees before parent ts).1 parent (addTrees before parent ts).2
  | [] => by
      simp only [addTrees]
      refine ⟨Nat.le_refl _, fun _ _ => rfl, by simp, by simp, fun n low high => ?_,
        fun p low => ?_⟩
      · exact absurd high (Nat.not_lt.2 low)
      · simp [childrenIn_eq_nil low]
  | t :: rest => by
      simp only [addTrees]
      exact GrowsBelow.cons (grows_addTree before (some parent) t) (grows_addTrees _ parent rest)

end

/-- **A tree that was read makes a well-formed document.** -/
theorem wellFormed_ofTree (t : Tree) : (ofTree t).WellFormed := by
  have grows := grows_addTree #[] none t
  have down (p : Nat) := grows.closed p (Nat.zero_le p)
  have up (c p : Nat) (found : (ofTree t).parent? c = some p) :
      p < c ∧ c ∈ (ofTree t).children p := by
    have inside := lt_of_parent? found
    have later : 0 < c := by
      refine Nat.pos_of_ne_zero fun first => ?_
      have top : parentIn (addTree #[] none t) 0 = none := grows.first
      rw [first] at found
      exact absurd (top.symm.trans found) (by simp)
    obtain ⟨q, same, -, smaller, listed⟩ := grows.rest c later inside
    obtain rfl : q = p := Option.some.inj (same.symm.trans found)
    exact ⟨smaller, listed⟩
  refine ⟨⟨fun p c => ⟨fun member => ((down p).2 c member).2.2, fun found => (up c p found).2⟩,
    fun p => (down p).1⟩, fun n => n, fun c p found => (up c p found).1⟩

theorem wellFormed_ofText? {s : String} {d : Document} (read : ofText? s = some d) :
    d.WellFormed := by
  obtain ⟨t, -, rfl⟩ := Option.map_eq_some_iff.1 read
  exact wellFormed_ofTree t

end Infographic.Markup.Document
