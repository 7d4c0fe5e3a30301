/-
# Infographic.Proofs.TreeWalk -- a walk with a stack lists the elements in document order

The elements below a node can be listed with a stack of nodes still to visit: take the topmost
node, and if it is an element, list it and push its children, the first one topmost.  In a
well-formed document every step visits a node that was not visited before (`Walk.Fresh.step`), so
the walk comes to an end, and what it has listed then is what the recursion over children lists
(`WellFormed.run_start`): the elements in document order (`Preorder`).  Where texts are leaves, as
in every document that was read, these are all elements below the node.
-/
import Infographic.Proofs.DocumentOfTree
import Infographic.Proofs.TreeHeight

namespace Infographic.Markup.Document

set_option autoImplicit false

variable {d : Document} {n : NodeId} {nodes out : List NodeId}

/-! ## Document order -/

/-- What one lists of a row of nodes: texts are passed over, and an element comes before the
elements inside it, these before what follows it. -/
inductive Preorder (d : Document) : List NodeId → List NodeId → Prop
  | nil : Preorder d [] []
  | skip {c : NodeId} {rest out : List NodeId} (text : d.isElement c = false)
      (later : Preorder d rest out) : Preorder d (c :: rest) out
  | visit {c : NodeId} {rest inner out : List NodeId} (element : d.isElement c = true)
      (inside : Preorder d (d.children c) inner) (later : Preorder d rest out) :
      Preorder d (c :: rest) (c :: inner ++ out)

namespace Preorder

/-- There is only one such list. -/
theorem unique {out' : List NodeId} (first : d.Preorder nodes out)
    (second : d.Preorder nodes out') : out' = out := by
  induction first generalizing out' with
  | nil => cases second; rfl
  | skip text _ ih =>
      cases second with
      | skip _ later => exact ih later
      | visit element => rw [text] at element; cases element
  | visit element _ _ inner_ih later_ih =>
      cases second with
      | skip text => rw [text] at element; cases element
      | visit _ inside later => rw [inner_ih inside, later_ih later]

/-- The elements of a row of nodes, each followed by the elements below it. -/
theorem of_children (below : ∀ c ∈ nodes, d.Preorder (d.children c) (d.descendants c)) :
    d.Preorder nodes ((nodes.filter d.isElement).flatMap fun c => c :: d.descendants c) := by
  induction nodes with
  | nil => exact .nil
  | cons c rest ih =>
      have later := ih fun b member => below b (List.mem_cons_of_mem c member)
      cases element : d.isElement c with
      | false =>
          rw [List.filter_cons_of_neg (by simp [element])]
          exact .skip element later
      | true =>
          rw [List.filter_cons_of_pos element]
          exact .visit element (below c List.mem_cons_self) later

end Preorder

/-- The elements below a node are listed in document order. -/
theorem WellFormed.preorder_descendants (whole : d.WellFormed) (n : NodeId) :
    d.Preorder (d.children n) (d.descendants n) := by
  induction n using whole.induction_children with
  | step n ih =>
      rw [whole.descendants_eq]
      exact .of_children ih

/-- Texts have no nodes inside them. -/
def LeafTexts (d : Document) : Prop :=
  ∀ c, d.isElement c = false → d.children c = []

/-- Where texts are leaves, every node below a node is below it through elements. -/
theorem LeafTexts.below_iff (leaves : d.LeafTexts) {c : NodeId} (element : d.isElement c = true) :
    d.Below n c ↔ Relation.TransGen (fun p b => b ∈ d.children p) n c := by
  constructor
  · intro below
    exact Relation.TransGen.mono (fun p b child => (List.mem_filter.1 child).1) _ _ below
  · intro below
    induction below using Relation.TransGen.head_induction_on with
    | single child => exact .single (List.mem_filter.2 ⟨child, element⟩)
    | @head p b child later ih =>
        refine .head (List.mem_filter.2 ⟨child, ?_⟩) ih
        -- something is below `b`, so it is no text
        by_contra text
        obtain ⟨q, inside, -⟩ := Relation.TransGen.head'_iff.1 later
        rw [leaves b (by simpa using text)] at inside
        cases inside

/-- The texts of an arena have no nodes inside them. -/
def TextsBare (nodes : Array Node) : Prop :=
  ∀ (n : Nat) (node : Node) (s : String), nodes[n]? = some node → node.kind = .text s →
    node.children = []

theorem TextsBare.push {nodes : Array Node} (bare : TextsBare nodes) (kind : NodeKind)
    (parent : Option NodeId) : TextsBare (nodes.push ⟨kind, parent, []⟩) := by
  intro n node s found text
  rw [Array.getElem?_push] at found
  split at found
  · cases found
    rfl
  · exact bare n node s found text

mutual

theorem textsBare_addTree {nodes : Array Node} (bare : TextsBare nodes) (parent : Option NodeId) :
    (t : Tree) → TextsBare (addTree nodes parent t)
  | .element tag as children => by
      have below := grows_addTrees (nodes.push ⟨.element tag as, parent, []⟩) nodes.size children
      have rest := textsBare_addTrees (bare.push (.element tag as) parent) nodes.size children
      have opened : (addTrees (nodes.push ⟨.element tag as, parent, []⟩) nodes.size
          children).1[nodes.size]? = some ⟨.element tag as, parent, []⟩ := by
        rw [below.old _ (by simp), Array.getElem?_push_size]
      rw [addTree]
      intro n node s found text
      simp only [Array.getElem?_modify] at found
      split at found
      · rename_i here
        subst here
        rw [opened] at found
        cases found
        cases text
      · exact rest n node s found text
  | .text s => by
      rw [addTree]
      exact bare.push (.text s) parent

theorem textsBare_addTrees {nodes : Array Node} (bare : TextsBare nodes) (parent : NodeId) :
    (ts : List Tree) → TextsBare (addTrees nodes parent ts).1
  | [] => bare
  | t :: rest => textsBare_addTrees (textsBare_addTree bare (some parent) t) parent rest

end

/-- In a document that was read, texts are leaves. -/
theorem leafTexts_ofTree (t : Tree) : (ofTree t).LeafTexts := by
  intro c other
  have bare : TextsBare (addTree #[] none t) :=
    textsBare_addTree (fun n node s found => by simp at found) none t
  rw [isElement, tag?, kind?] at other
  rw [children]
  cases found : (ofTree t).nodes[c]? with
  | none => rfl
  | some node =>
      rw [found] at other
      cases text : node.kind with
      | element tag as => simp [text] at other
      | text s => exact bare c node s found text

/-! ## The walk -/

/-- The nodes still to visit, the next one last, and the elements listed so far. -/
structure Walk where
  stack : List NodeId
  out : List NodeId
  deriving Repr, DecidableEq

namespace Walk

/-- Before the first step the children of a node are still to visit. -/
def start (d : Document) (n : NodeId) : Walk :=
  ⟨(d.children n).reverse, []⟩

/-- Visit the next node; there may be none left. -/
def step (d : Document) (w : Walk) : Option Walk :=
  w.stack.getLast?.map fun next =>
    if d.isElement next then
      ⟨w.stack.dropLast ++ (d.children next).reverse, w.out ++ [next]⟩
    else ⟨w.stack.dropLast, w.out⟩

/-- Visit nodes while there are any, at most a number of them. -/
def run (d : Document) : Nat → Walk → Walk
  | 0, w => w
  | k + 1, w =>
    match w.step d with
    | some w' => run d k w'
    | none => w

theorem step_text {stack : List NodeId} {next : NodeId} (text : d.isElement next = false) :
    step d ⟨stack ++ [next], out⟩ = some ⟨stack, out⟩ := by
  simp [step, text]

theorem step_element {stack : List NodeId} {next : NodeId} (element : d.isElement next = true) :
    step d ⟨stack ++ [next], out⟩ = some ⟨stack ++ (d.children next).reverse, out ++ [next]⟩ := by
  simp [step, element]

/-- A walk that has no node left to visit stays as it is. -/
theorem run_done (k : Nat) : run d k ⟨[], out⟩ = ⟨[], out⟩ := by
  cases k <;> rfl

theorem run_add (j k : Nat) (w : Walk) : run d (j + k) w = run d k (run d j w) := by
  induction j generalizing w with
  | zero => rw [Nat.zero_add, run]
  | succ j ih =>
      rw [Nat.succ_add, run, run]
      cases more : w.step d with
      | some w' => exact ih w'
      | none =>
          cases k with
          | zero => rfl
          | succ k => simp only [run, more]

/-- The nodes on top of the stack are listed in document order before those under them. -/
theorem run_preorder (listed : d.Preorder nodes out) (stack done : List NodeId) :
    ∃ k, run d k ⟨stack ++ nodes.reverse, done⟩ = ⟨stack, done ++ out⟩ := by
  induction listed generalizing stack done with
  | nil => exact ⟨0, by simp [run]⟩
  | @skip c rest out text later ih =>
      obtain ⟨k, after⟩ := ih stack done
      refine ⟨k + 1, ?_⟩
      rw [List.reverse_cons, ← List.append_assoc, run, step_text text]
      exact after
  | @visit c rest inner out element _ _ inner_ih later_ih =>
      obtain ⟨j, first⟩ := inner_ih (stack ++ rest.reverse) (done ++ [c])
      obtain ⟨k, second⟩ := later_ih stack (done ++ [c] ++ inner)
      refine ⟨j + k + 1, ?_⟩
      rw [List.reverse_cons, ← List.append_assoc, run, step_element element]
      show run d (j + k) _ = _
      rw [run_add, first, second]
      simp

variable {rank : NodeId → Nat} {seen : List NodeId} {w w' : Walk}

/-- A step takes the topmost node away and pushes children of it, each once. -/
theorem step_stack (links : d.Linked) (taken : w.step d = some w') :
    ∃ stack next pushed, w.stack = stack ++ [next] ∧ w'.stack = stack ++ pushed ∧
      pushed.Nodup ∧ ∀ c ∈ pushed, d.parent? c = some next := by
  obtain ⟨next, last, rfl⟩ := Option.map_eq_some_iff.1 taken
  refine ⟨w.stack.dropLast, next, if d.isElement next then (d.children next).reverse else [],
    (List.dropLast_append_getLast? next last).symm, ?_, ?_⟩
  · split <;> simp
  · split
    · exact ⟨List.nodup_reverse.2 (links.nodup next), fun c pushed =>
        (links.mem_iff next c).1 (List.mem_reverse.1 pushed)⟩
    · exact ⟨List.nodup_nil, fun c pushed => absurd pushed List.not_mem_nil⟩

/-- The nodes visited so far and those still to visit are distinct nodes below the one the walk
started from, and the parent of each was visited before. -/
structure Fresh (d : Document) (rank : NodeId → Nat) (n : NodeId) (seen : List NodeId)
    (w : Walk) : Prop where
  nodup : (seen ++ w.stack).Nodup
  lower : ∀ c ∈ seen ++ w.stack, rank n < rank c
  parent : ∀ c ∈ seen ++ w.stack, ∃ p ∈ n :: seen, d.parent? c = some p

theorem fresh_start (links : d.Linked) (ranked : d.Ranked rank) (n : NodeId) :
    Fresh d rank n [] (start d n) := by
  have up (c : NodeId) (member : c ∈ [] ++ (start d n).stack) : d.parent? c = some n := by
    rw [List.nil_append, start, List.mem_reverse] at member
    exact (links.mem_iff n c).1 member
  refine ⟨by simpa [start] using links.nodup n, fun c member => ranked c n (up c member),
    fun c member => ⟨n, by simp, up c member⟩⟩

/-- **A step visits a node that was not visited before.** -/
theorem Fresh.step (links : d.Linked) (ranked : d.Ranked rank) (fresh : Fresh d rank n seen w)
    (taken : w.step d = some w') : ∃ next, Fresh d rank n (seen ++ [next]) w' := by
  obtain ⟨stack, next, pushed, before, after, distinct, up⟩ := step_stack links taken
  obtain ⟨nodup, lower, parent⟩ := fresh
  rw [before, ← List.append_assoc] at nodup lower parent
  have same : seen ++ [next] ++ w'.stack = seen ++ [next] ++ stack ++ pushed := by
    rw [after, List.append_assoc _ stack]
  have moved : (seen ++ [next] ++ stack).Perm (seen ++ stack ++ [next]) := by
    rw [List.append_assoc, List.append_assoc]
    exact List.perm_append_comm.append_left seen
  have below : rank n < rank next := lower next (by simp)
  refine ⟨next, ?_, fun c member => ?_, fun c member => ?_⟩
  · rw [same]
    refine List.nodup_append'.2 ⟨?_, distinct, fun c old child => ?_⟩
    · exact moved.nodup_iff.2 nodup
    · -- a child of `next` that was met before had a parent that was visited before `next`
      obtain ⟨p, visited, above⟩ := parent c (moved.mem_iff.1 old)
      obtain rfl : p = next := Option.some.inj (above.symm.trans (up c child))
      rcases List.mem_cons.1 visited with here | earlier
      · exact absurd (here ▸ below) (Nat.lt_irrefl _)
      · exact (List.nodup_append'.1 nodup).2.2 (List.mem_append_left stack earlier) (by simp)
  · rw [same] at member
    rcases List.mem_append.1 member with old | child
    · exact lower c (moved.mem_iff.1 old)
    · exact Nat.lt_trans below (ranked c next (up c child))
  · rw [same] at member
    rcases List.mem_append.1 member with old | child
    · obtain ⟨p, visited, above⟩ := parent c (moved.mem_iff.1 old)
      refine ⟨p, ?_, above⟩
      rw [← List.cons_append]
      exact List.mem_append_left [next] visited
    · exact ⟨next, by simp, up c child⟩

/-- There are no more nodes to visit than nodes. -/
theorem Fresh.length_le (fresh : Fresh d rank n seen w) :
    seen.length + w.stack.length ≤ d.nodeCount := by
  have known : seen ++ w.stack ⊆ List.range d.nodeCount := by
    intro c member
    obtain ⟨p, -, up⟩ := fresh.parent c member
    exact List.mem_range.2 (lt_of_parent? up)
  have fewer := (fresh.nodup.subperm known).length_le
  rwa [List.length_append, List.length_range] at fewer

/-- With a step for each node that was not visited yet, the walk comes to its end. -/
theorem Fresh.run_stack (links : d.Linked) (ranked : d.Ranked rank)
    (fresh : Fresh d rank n seen w) {k : Nat} (enough : d.nodeCount ≤ seen.length + k) :
    (run d k w).stack = [] := by
  induction k generalizing seen w with
  | zero =>
      have bound := fresh.length_le
      rw [run]
      exact List.eq_nil_of_length_eq_zero (by omega)
  | succ k ih =>
      rw [run]
      cases more : w.step d with
      | some w' =>
          obtain ⟨next, later⟩ := fresh.step links ranked more
          refine ih later ?_
          simp only [List.length_append, List.length_singleton]
          omega
      | none =>
          simpa [Walk.step] using more

end Walk

/-- **The walk visits every node at most once and lists what the recursion lists.** -/
theorem WellFormed.run_start (whole : d.WellFormed) (n : NodeId) {k : Nat}
    (enough : d.nodeCount ≤ k) : Walk.run d k (Walk.start d n) = ⟨[], d.descendants n⟩ := by
  obtain ⟨rank, ranked⟩ := whole.ranked
  have fresh := Walk.fresh_start whole.toLinked ranked n
  have stopped : (Walk.run d k (Walk.start d n)).stack = [] :=
    fresh.run_stack whole.toLinked ranked (by simpa using enough)
  obtain ⟨j, listed⟩ := Walk.run_preorder (whole.preorder_descendants n) [] []
  -- both runs have come to the end, so more steps change neither
  calc Walk.run d k (Walk.start d n)
    _ = ⟨[], (Walk.run d k (Walk.start d n)).out⟩ := by rw [← stopped]
    _ = Walk.run d j ⟨[], (Walk.run d k (Walk.start d n)).out⟩ := (Walk.run_done j).symm
    _ = Walk.run d j (Walk.run d k (Walk.start d n)) := by rw [← stopped]
    _ = Walk.run d k (Walk.run d j (Walk.start d n)) := by
        rw [← Walk.run_add, Nat.add_comm, Walk.run_add]
    _ = Walk.run d k ⟨[], d.descendants n⟩ := congrArg (Walk.run d k) listed
    _ = ⟨[], d.descendants n⟩ := Walk.run_done k

end Infographic.Markup.Document
