/-
# Infographic.Proofs.TreeShape -- parents and children agree

In a well-formed document a node is among the children of another exactly when the other is
its parent, no node is twice among the children, and a rank grows from every parent to its
children, so that following parents never leads back.  New nodes, moved nodes and wrapped
nodes keep a document well-formed; edits of attributes keep its tree as it is.
-/
import Infographic.Proofs.Arena
import Mathlib.Data.List.Nodup

namespace Infographic.Markup.Document

set_option autoImplicit false

/-- Children and parents point to each other. -/
structure Linked (d : Document) : Prop where
  mem_iff : ∀ p c, c ∈ d.children p ↔ d.parent? c = some p
  nodup : ∀ p, (d.children p).Nodup

/-- A rank that grows from every parent to its children. -/
def Ranked (d : Document) (rank : NodeId → Nat) : Prop :=
  ∀ c p, d.parent? c = some p → rank p < rank c

/-- Parents and children agree, and following parents comes to an end. -/
structure WellFormed (d : Document) : Prop extends Linked d where
  ranked : ∃ rank, d.Ranked rank

/-! ## Edits that keep the tree -/

/-- Two documents with the same tree of elements. -/
structure SameTree (d d' : Document) : Prop where
  root : d'.root = d.root
  nodeCount : d'.nodeCount = d.nodeCount
  parent? : ∀ n, d'.parent? n = d.parent? n
  children : ∀ n, d'.children n = d.children n
  tag? : ∀ n, d'.tag? n = d.tag? n

namespace SameTree

variable {d d' d'' : Document}

theorem refl (d : Document) : SameTree d d :=
  ⟨rfl, rfl, fun _ => rfl, fun _ => rfl, fun _ => rfl⟩

theorem trans (first : SameTree d d') (second : SameTree d' d'') : SameTree d d'' where
  root := second.root.trans first.root
  nodeCount := second.nodeCount.trans first.nodeCount
  parent? n := (second.parent? n).trans (first.parent? n)
  children n := (second.children n).trans (first.children n)
  tag? n := (second.tag? n).trans (first.tag? n)

theorem isElement (same : SameTree d d') (n : NodeId) : d'.isElement n = d.isElement n := by
  rw [Document.isElement, same.tag?, Document.isElement]

theorem modifyAttributes (d : Document) (id : NodeId)
    (f : List (String × String) → List (String × String)) :
    SameTree d (d.modifyAttributes id f) :=
  ⟨rfl, nodeCount_modifyAttributes d id f, parent?_modifyAttributes d id f,
    children_modifyAttributes d id f, tag?_modifyAttributes d id f⟩

theorem setAttribute (d : Document) (id : NodeId) (name value : String) :
    SameTree d (d.setAttribute id name value) :=
  modifyAttributes d id _

theorem removeAttribute (d : Document) (id : NodeId) (name : String) :
    SameTree d (d.removeAttribute id name) :=
  modifyAttributes d id _

/-- Steps that keep the tree keep it when they are repeated. -/
theorem foldl {α : Type} {step : Document → α → Document}
    (one : ∀ d a, SameTree d (step d a)) (d : Document) (items : List α) :
    SameTree d (items.foldl step d) := by
  induction items generalizing d with
  | nil => exact refl d
  | cons a rest ih => exact (one d a).trans (ih (step d a))

theorem elementChildren (same : SameTree d d') (n : NodeId) :
    d'.elementChildren n = d.elementChildren n := by
  rw [Document.elementChildren, same.children, funext same.isElement, Document.elementChildren]

theorem descendants (same : SameTree d d') (n : NodeId) : d'.descendants n = d.descendants n := by
  have below (fuel : Nat) (n : NodeId) : d'.descendantsFrom fuel n = d.descendantsFrom fuel n := by
    induction fuel generalizing n with
    | zero => rfl
    | succ fuel ih =>
        rw [descendantsFrom, descendantsFrom, same.elementChildren]
        simp only [ih]
  rw [Document.descendants, Document.descendants, same.nodeCount, below]

theorem linked (same : SameTree d d') (links : d.Linked) : d'.Linked where
  mem_iff p c := by rw [same.children, same.parent?, links.mem_iff]
  nodup p := by rw [same.children]; exact links.nodup p

theorem ranked (same : SameTree d d') {rank : NodeId → Nat} (ranked : d.Ranked rank) :
    d'.Ranked rank :=
  fun c p up => ranked c p (by rwa [same.parent?] at up)

theorem wellFormed (same : SameTree d d') (whole : d.WellFormed) : d'.WellFormed := by
  obtain ⟨links, rank, ranked⟩ := whole
  exact ⟨same.linked links, rank, same.ranked ranked⟩

end SameTree

variable {d : Document} {id p c n : NodeId} {rank : NodeId → Nat}

/-! ## Taking a node out -/

@[simp] theorem nodeCount_detach : (d.detach id).nodeCount = d.nodeCount := by
  unfold detach
  split <;> simp

@[simp] theorem kind?_detach (n : NodeId) : (d.detach id).kind? n = d.kind? n := by
  unfold detach
  split <;> simp

theorem parent?_detach (n : NodeId) :
    (d.detach id).parent? n = if n = id then none else d.parent? n := by
  cases up : d.parent? id with
  | none =>
      have same : d.detach id = d := by simp only [detach, up]
      rw [same]
      split
      · rename_i here
        rw [here, up]
      · rfl
  | some q =>
      have inside := lt_of_parent? up
      simp only [detach, up, parent?_setChildren, parent?_setParent]
      by_cases here : n = id
      · simp [here, inside]
      · simp [here, Ne.symm here]

namespace Linked

theorem lt_of_parent (links : d.Linked) (up : d.parent? c = some p) : p < d.nodeCount :=
  lt_of_mem_children ((links.mem_iff p c).2 up)

/-- Only the parent lists a node. -/
theorem filter_children (links : d.Linked) (other : d.parent? id ≠ some n) :
    (d.children n).filter (· != id) = d.children n := by
  refine List.filter_eq_self.2 fun c member => ?_
  have up := (links.mem_iff n c).1 member
  have apart : c ≠ id := fun same => other (same ▸ up)
  simpa using apart

theorem children_detach (links : d.Linked) (n : NodeId) :
    (d.detach id).children n = (d.children n).filter (· != id) := by
  cases up : d.parent? id with
  | none =>
      have same : d.detach id = d := by simp only [Document.detach, up]
      rw [same, links.filter_children (by simp [up])]
  | some q =>
      have inside := links.lt_of_parent up
      simp only [Document.detach, up, children_setChildren, children_setParent,
        nodeCount_setParent]
      by_cases here : q = n
      · subst here
        simp [inside]
      · rw [if_neg (fun both => here both.1), links.filter_children (by simp [up, here])]

theorem detach (links : d.Linked) : (d.detach id).Linked where
  mem_iff p c := by
    rw [links.children_detach, parent?_detach, List.mem_filter, links.mem_iff]
    by_cases here : c = id <;> simp [here]
  nodup p := by
    rw [links.children_detach]
    exact (links.nodup p).filter _

end Linked

theorem Ranked.detach (ranked : d.Ranked rank) : (d.detach id).Ranked rank := by
  intro c p up
  rw [parent?_detach] at up
  split at up
  · simp at up
  · exact ranked c p up

/-! ## Moving a node -/

@[simp] theorem nodeCount_appendChild : (d.appendChild p c).nodeCount = d.nodeCount := by
  simp [appendChild]

@[simp] theorem kind?_appendChild (n : NodeId) : (d.appendChild p c).kind? n = d.kind? n := by
  simp [appendChild]

theorem parent?_appendChild (inside : c < d.nodeCount) (n : NodeId) :
    (d.appendChild p c).parent? n = if n = c then some p else d.parent? n := by
  simp only [appendChild, parent?_setChildren, parent?_setParent, nodeCount_detach,
    parent?_detach]
  by_cases here : n = c
  · simp [here, inside]
  · simp [here, Ne.symm here]

namespace Linked

theorem children_appendChild (links : d.Linked) (inside : p < d.nodeCount) (n : NodeId) :
    (d.appendChild p c).children n =
      (d.children n).filter (· != c) ++ if n = p then [c] else [] := by
  simp only [Document.appendChild, children_setChildren, children_setParent, nodeCount_setParent,
    nodeCount_detach, links.children_detach]
  by_cases here : n = p
  · simp [here, inside]
  · simp [here, Ne.symm here]

theorem appendChild (links : d.Linked) (below : c < d.nodeCount) (inside : p < d.nodeCount) :
    (d.appendChild p c).Linked where
  mem_iff q x := by
    rw [links.children_appendChild inside, parent?_appendChild below, List.mem_append,
      List.mem_filter, links.mem_iff]
    by_cases moved : x = c
    · by_cases here : q = p <;> simp [moved, here, Ne.symm]
    · by_cases here : q = p <;> simp [moved, here]
  nodup q := by
    rw [links.children_appendChild inside]
    refine List.Nodup.append ((links.nodup q).filter _) ?_ ?_
    · split <;> simp
    · split
      · simp
      · simp

end Linked

/-- A node may be moved below any node of smaller rank. -/
theorem Ranked.appendChild (ranked : d.Ranked rank) (below : c < d.nodeCount)
    (smaller : rank p < rank c) : (d.appendChild p c).Ranked rank := by
  intro x q up
  rw [parent?_appendChild below] at up
  split at up
  · rename_i moved
    rw [moved, ← Option.some.inj up]
    exact smaller
  · exact ranked x q up

/-! ## New nodes -/

theorem Linked.create (links : d.Linked) (kind : NodeKind) : (d.create kind).1.Linked where
  mem_iff p c := by rw [children_create, parent?_create, links.mem_iff]
  nodup p := by rw [children_create]; exact links.nodup p

theorem Ranked.create (ranked : d.Ranked rank) (kind : NodeKind) :
    (d.create kind).1.Ranked rank := by
  intro c p up
  rw [parent?_create] at up
  exact ranked c p up

/-! ## Wrapping a node -/

/-- The new group in the place of the wrapped node. -/
def swap (old new c : NodeId) : NodeId := if c = old then new else c

theorem mem_map_swap {old new x : NodeId} {cs : List NodeId} (absent : new ∉ cs)
    (other : new ≠ old) :
    x ∈ cs.map (swap old new) ↔ if x = new then old ∈ cs else x ≠ old ∧ x ∈ cs := by
  rw [List.mem_map]
  by_cases fresh : x = new
  · subst fresh
    rw [if_pos rfl]
    constructor
    · rintro ⟨a, member, same⟩
      by_cases here : a = old
      · exact here ▸ member
      · rw [swap, if_neg here] at same
        exact absurd (same ▸ member) absent
    · exact fun member => ⟨old, member, if_pos rfl⟩
  · rw [if_neg fresh]
    constructor
    · rintro ⟨a, member, same⟩
      by_cases here : a = old
      · rw [swap, if_pos here] at same
        exact absurd same.symm fresh
      · rw [swap, if_neg here] at same
        exact same ▸ ⟨here, member⟩
    · exact fun ⟨here, member⟩ => ⟨x, member, if_neg here⟩

theorem nodup_map_swap {old new : NodeId} {cs : List NodeId} (absent : new ∉ cs)
    (nodup : cs.Nodup) : (cs.map (swap old new)).Nodup := by
  refine List.Nodup.map_on (fun x first y second same => ?_) nodup
  by_cases left : x = old
  · by_cases right : y = old
    · rw [left, right]
    · rw [swap, swap, if_pos left, if_neg right] at same
      exact absurd (same ▸ second) absent
  · by_cases right : y = old
    · rw [swap, swap, if_neg left, if_pos right] at same
      exact absurd (same ▸ first) absent
    · rwa [swap, swap, if_neg left, if_neg right] at same

theorem parent?_replaceChild {new : NodeId} (up : d.parent? id = some p)
    (inside : new < d.nodeCount) (other : new ≠ id) (n : NodeId) :
    (d.replaceChild p id new).parent? n =
      if n = id then none else if n = new then some p else d.parent? n := by
  have below := lt_of_parent? up
  simp only [replaceChild, parent?_setParent, nodeCount_setParent, nodeCount_setChildren,
    parent?_setChildren]
  by_cases here : n = id
  · simp [here, below]
  · by_cases there : n = new
    · simp [there, inside, other, Ne.symm other]
    · simp [here, there, Ne.symm here, Ne.symm there]

theorem children_replaceChild {new : NodeId} (inside : p < d.nodeCount) (n : NodeId) :
    (d.replaceChild p id new).children n =
      if n = p then (d.children p).map (swap id new) else d.children n := by
  simp only [replaceChild, children_setParent, children_setChildren]
  by_cases here : n = p
  · simp only [here, inside, and_self, if_true]
    rfl
  · simp [here, Ne.symm here]

theorem Linked.replaceChild {new : NodeId} (links : d.Linked) (up : d.parent? id = some p)
    (inside : new < d.nodeCount) (alone : d.parent? new = none) (other : new ≠ id) :
    (d.replaceChild p id new).Linked := by
  have absent : new ∉ d.children p := fun member => by
    simpa [alone] using (links.mem_iff p new).1 member
  refine ⟨fun q x => ?_, fun q => ?_⟩
  · rw [children_replaceChild (links.lt_of_parent up), parent?_replaceChild up inside other]
    by_cases here : q = p
    · subst here
      rw [if_pos rfl, mem_map_swap absent other, links.mem_iff, links.mem_iff]
      by_cases fresh : x = new
      · simp [fresh, other, up]
      · by_cases old : x = id <;> simp [fresh, old, Ne.symm other]
    · rw [if_neg here, links.mem_iff]
      by_cases old : x = id
      · simp [old, up, Ne.symm here]
      · by_cases fresh : x = new
        · simp [fresh, other, alone, Ne.symm here]
        · simp [old, fresh]
  · rw [children_replaceChild (links.lt_of_parent up)]
    split
    · exact nodup_map_swap absent (links.nodup p)
    · exact links.nodup q

/-- The document with the new group in the place of the node. -/
def hoist (d : Document) (id : NodeId) (tag : String) : Document :=
  match d.parent? id with
  | some p => (d.createElement tag).1.replaceChild p id d.nodeCount
  | none => (d.createElement tag).1

theorem nodeCount_hoist (tag : String) : (d.hoist id tag).nodeCount = d.nodeCount + 1 := by
  unfold hoist
  split <;> simp [replaceChild, createElement]

theorem kind?_hoist (tag : String) (n : NodeId) :
    (d.hoist id tag).kind? n = if n = d.nodeCount then some (.element tag []) else d.kind? n := by
  unfold hoist
  split <;> simp [replaceChild, createElement, kind?_create]

theorem parent?_eq_none (out : d.nodeCount ≤ n) : d.parent? n = none := by
  rw [parent?, nodes_eq_none out]
  rfl

theorem children_eq_nil (out : d.nodeCount ≤ n) : d.children n = [] := by
  rw [children, nodes_eq_none out]
  rfl

theorem parent?_hoist (below : id < d.nodeCount) (tag : String) (n : NodeId) :
    (d.hoist id tag).parent? n =
      if n = id then none else if n = d.nodeCount then d.parent? id else d.parent? n := by
  cases up : d.parent? id with
  | none =>
      simp only [hoist, up, createElement, parent?_create]
      by_cases here : n = id
      · rw [if_pos here, here, up]
      · by_cases last : n = d.nodeCount
        · rw [if_neg here, if_pos last, parent?_eq_none (Nat.le_of_eq last.symm)]
        · rw [if_neg here, if_neg last]
  | some p =>
      have inside : d.nodeCount < (d.createElement tag).1.nodeCount := by simp [createElement]
      have up' : (d.createElement tag).1.parent? id = some p := by simp [createElement, up]
      simp only [hoist, up]
      rw [parent?_replaceChild up' inside (Ne.symm (Nat.ne_of_lt below))]
      simp [createElement]

theorem Linked.children_hoist (links : d.Linked) (tag : String) (n : NodeId) :
    (d.hoist id tag).children n = (d.children n).map (swap id d.nodeCount) := by
  have untouched (elsewhere : d.parent? id ≠ some n) :
      (d.children n).map (swap id d.nodeCount) = d.children n := by
    refine (List.map_congr_left fun c member => ?_).trans (List.map_id' _)
    have apart : c ≠ id := fun same => elsewhere (same ▸ (links.mem_iff n c).1 member)
    simp [swap, apart]
  cases up : d.parent? id with
  | none =>
      simp only [hoist, up, createElement, children_create]
      exact (untouched (by simp [up])).symm
  | some p =>
      have inside : p < (d.createElement tag).1.nodeCount := by
        simpa [createElement] using Nat.lt_succ_of_lt (links.lt_of_parent up)
      simp only [hoist, up]
      rw [children_replaceChild inside]
      by_cases here : n = p
      · simp [here, createElement]
      · rw [if_neg here, untouched (by simpa [up] using Ne.symm here)]
        simp [createElement]

section

variable (links : d.Linked)

include links

theorem wrap_eq (tag : String) :
    d.wrap id tag = ((d.hoist id tag).appendChild d.nodeCount id, d.nodeCount) := by
  cases up : d.parent? id with
  | none => simp only [wrap, hoist, up, createElement, create_snd, parent?_create]
  | some p =>
      have listed : (d.children p).contains id = true := by
        simpa using (links.mem_iff p id).2 up
      simp only [wrap, hoist, up, createElement, create_snd, parent?_create, children_create,
        listed, if_true]

theorem wrap_snd (tag : String) : (d.wrap id tag).2 = d.nodeCount := by
  rw [wrap_eq links]

theorem nodeCount_wrap (tag : String) : (d.wrap id tag).1.nodeCount = d.nodeCount + 1 := by
  rw [wrap_eq links, nodeCount_appendChild, nodeCount_hoist]

theorem kind?_wrap (tag : String) (n : NodeId) :
    (d.wrap id tag).1.kind? n = if n = d.nodeCount then some (.element tag []) else d.kind? n := by
  rw [wrap_eq links, kind?_appendChild, kind?_hoist]

variable (below : id < d.nodeCount) (tag : String)

include below

theorem linked_hoist : (d.hoist id tag).Linked := by
  have other : d.nodeCount ≠ id := Ne.symm (Nat.ne_of_lt below)
  cases up : d.parent? id with
  | none =>
      simp only [hoist, up]
      exact links.create _
  | some p =>
      have alone : d.parent? d.nodeCount = none := parent?_eq_none (Nat.le_refl _)
      simp only [hoist, up]
      exact (links.create _).replaceChild (by rwa [parent?_create])
        (by rw [nodeCount_create]; exact Nat.lt_succ_self _) (by rwa [parent?_create]) other

/-- The new group is the parent of the node and has the parent that the node had. -/
theorem parent?_wrap (n : NodeId) :
    (d.wrap id tag).1.parent? n =
      if n = id then some d.nodeCount else if n = d.nodeCount then d.parent? id
      else d.parent? n := by
  have inside : id < (d.hoist id tag).nodeCount := by
    rw [nodeCount_hoist]
    exact Nat.lt_succ_of_lt below
  rw [wrap_eq links, parent?_appendChild inside, parent?_hoist below]
  by_cases here : n = id <;> simp [here]

/-- The new group stands where the node stood and has it as its only child. -/
theorem children_wrap (n : NodeId) :
    (d.wrap id tag).1.children n =
      if n = d.nodeCount then [id] else (d.children n).map (swap id d.nodeCount) := by
  have linked := linked_hoist links below tag
  have alone : (d.hoist id tag).parent? id ≠ some n := by simp [parent?_hoist below]
  have inside : d.nodeCount < (d.hoist id tag).nodeCount := by
    rw [nodeCount_hoist]
    exact Nat.lt_succ_self _
  rw [wrap_eq links, linked.children_appendChild inside, linked.filter_children alone,
    links.children_hoist]
  by_cases last : n = d.nodeCount
  · rw [if_pos last, if_pos last, last, children_eq_nil (Nat.le_refl _)]
    rfl
  · rw [if_neg last, if_neg last, List.append_nil]

theorem linked_wrap : (d.wrap id tag).1.Linked := by
  rw [wrap_eq links]
  refine (linked_hoist links below tag).appendChild ?_ ?_
  · rw [nodeCount_hoist]
    exact Nat.lt_succ_of_lt below
  · rw [nodeCount_hoist]
    exact Nat.lt_succ_self _

end

/-- Wrapping a node keeps the document well-formed. -/
theorem WellFormed.wrap (whole : d.WellFormed) (below : id < d.nodeCount) (tag : String) :
    (d.wrap id tag).1.WellFormed := by
  obtain ⟨links, rank, ranked⟩ := whole
  refine ⟨linked_wrap links below tag, ?_⟩
  -- Twice the old ranks leave room for the group between the node and its parent.
  refine ⟨fun n => if n = d.nodeCount then 2 * rank id else 2 * rank n + 1, fun c p up => ?_⟩
  rw [parent?_wrap links below tag] at up
  have fresh (q : NodeId) (listed : d.parent? c = some q ∨ d.parent? id = some q) :
      q ≠ d.nodeCount := by
    rcases listed with up | up
    · exact Nat.ne_of_lt (links.lt_of_parent up)
    · exact Nat.ne_of_lt (links.lt_of_parent up)
  by_cases here : c = id
  · have other : id ≠ d.nodeCount := Nat.ne_of_lt below
    rw [if_pos here] at up
    obtain rfl := Option.some.inj up
    simp [here, other]
  · rw [if_neg here] at up
    by_cases last : c = d.nodeCount
    · rw [if_pos last] at up
      have step := ranked id p up
      simp only [last, if_true, fresh p (.inr up), if_false]
      omega
    · rw [if_neg last] at up
      have step := ranked c p up
      simp only [last, fresh p (.inl up), if_false]
      omega

end Infographic.Markup.Document
