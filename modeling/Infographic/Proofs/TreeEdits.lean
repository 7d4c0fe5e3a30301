/-
# Infographic.Proofs.TreeEdits -- every edit keeps a document well-formed

A document that was read may be edited in any order: nodes are made, taken out, moved and
wrapped, texts are set, attributes and styles changed, and drawings cleaned up.  The only
thing that is not allowed is to move a node into itself or below itself.  Each edit keeps the
document well-formed (`WellFormed.edit`), so any run of edits does (`WellFormed.editAll`).
-/
import Infographic.Proofs.TemplateMaking
import Infographic.Proofs.TextPass
import Infographic.Proofs.TreeHeight

namespace Infographic.Markup.Document

set_option autoImplicit false

variable {d : Document} {id n : NodeId} {rank : NodeId → Nat}

/-! ## Setting a text -/

theorem parent?_orphan (ids : List NodeId) (n : NodeId) :
    (d.orphan ids).parent? n = if n ∈ ids then none else d.parent? n := by
  induction ids generalizing d with
  | nil => rfl
  | cons c rest ih =>
      have later := ih (d := d.setParent c none)
      rw [parent?_setParent] at later
      refine Eq.trans later ?_
      by_cases listed : n ∈ rest
      · simp [listed]
      · by_cases here : c = n
        · subst here
          by_cases inside : c < d.nodeCount
          · simp [inside]
          · simp [listed, inside, parent?_eq_none (Nat.le_of_not_lt inside)]
        · simp [listed, here, Ne.symm here]

/-- The place of a text is a child of its node already, or a new node. -/
theorem Linked.slot_cases (links : d.Linked) (element : d.isElement id = true) :
    d.parent? (d.slot id) = some id ∨ d.slot id = d.nodeCount := by
  rw [slot_of_element element]
  cases kept : (d.children id).find? d.isText with
  | some c => exact .inl ((links.mem_iff id c).1 (List.mem_of_find?_eq_some kept))
  | none => exact .inr rfl

/-- Making room leaves a node with its text only. -/
theorem Linked.parent?_lodge (links : d.Linked) (element : d.isElement id = true) (n : NodeId) :
    (d.lodge id).parent? n =
      if n = d.slot id then some id else if n ∈ d.children id then none else d.parent? n := by
  have inside := lt_of_isElement element
  rw [slot_of_element element]
  cases kept : (d.children id).find? d.isText with
  | some c =>
      have up : d.parent? c = some id := (links.mem_iff id c).1 (List.mem_of_find?_eq_some kept)
      rw [lodge_of_kept element kept, parent?_setChildren, parent?_orphan, Option.getD_some]
      by_cases here : n = c
      · simp [here, up]
      · simp [here]
  | none =>
      rw [lodge_of_new element kept, parent?_setChildren, parent?_setParent, parent?_create,
        parent?_orphan, Option.getD_none, nodeCount_create, nodeCount_orphan]
      by_cases here : n = d.nodeCount
      · simp [here]
      · simp [here, Ne.symm here]

theorem Linked.lodge (links : d.Linked) (id : NodeId) : (d.lodge id).Linked := by
  cases element : d.isElement id with
  | false => rwa [lodge_of_plain element]
  | true =>
      have only : (d.lodge id).children id = [d.slot id] := (children_lodge element).1
      refine ⟨fun p c => ?_, fun p => ?_⟩
      · rw [links.parent?_lodge element]
        by_cases here : p = id
        · rw [here, only, List.mem_singleton]
          by_cases placed : c = d.slot id
          · simp [placed]
          · by_cases listed : c ∈ d.children id
            · simp [placed, listed]
            · simp [placed, listed, ← links.mem_iff]
        · rw [children_lodge_of_ne (Ne.symm here), links.mem_iff]
          by_cases placed : c = d.slot id
          · -- The place of the text is no child of another node.
            have elsewhere : d.parent? c ≠ some p := by
              rcases links.slot_cases element with up | fresh
              · simpa [placed, up] using Ne.symm here
              · simp [placed, fresh, parent?_eq_none (Nat.le_refl d.nodeCount)]
            simp [placed, placed ▸ elsewhere, Ne.symm here]
          · by_cases listed : c ∈ d.children id
            · have up := (links.mem_iff id c).1 listed
              simp [placed, listed, up, Ne.symm here]
            · simp [placed, listed]
      · by_cases here : p = id
        · rw [here, only]
          exact List.nodup_singleton _
        · rw [children_lodge_of_ne (Ne.symm here)]
          exact links.nodup p

/-- Making room keeps a document well-formed. -/
theorem WellFormed.lodge (whole : d.WellFormed) (id : NodeId) : (d.lodge id).WellFormed := by
  obtain ⟨links, rank, ranked⟩ := whole
  refine ⟨links.lodge id, ?_⟩
  cases element : d.isElement id with
  | false => exact ⟨rank, by rwa [lodge_of_plain element]⟩
  | true =>
      have inside := lt_of_isElement element
      -- A new text ranks right below its node.
      let rank' := fun n => if n = d.nodeCount then rank id + 1 else rank n
      have old {n : NodeId} (before : n < d.nodeCount) : rank' n = rank n :=
        if_neg (Nat.ne_of_lt before)
      refine ⟨rank', fun c p up => ?_⟩
      rw [links.parent?_lodge element] at up
      split at up
      · rename_i placed
        obtain rfl := Option.some.inj up
        rw [old inside, placed]
        rcases links.slot_cases element with up | fresh
        · rw [old (lt_of_parent? up)]
          exact ranked _ _ up
        · rw [fresh]
          simp [rank']
      · split at up
        · simp at up
        · rw [old (lt_of_parent? up), old (links.lt_of_parent up)]
          exact ranked c p up

/-- Writing a text keeps the tree. -/
theorem SameTree.write (plain : d.isElement n = false) (s : String) : SameTree d (d.write n s) where
  root := rfl
  nodeCount := nodeCount_write s
  parent? m := by
    rw [Document.write, Document.parent?, nodes_modify, Document.parent?]
    split
    · cases d.nodes[m]? <;> rfl
    · rfl
  children := children_write s
  tag? m := by
    have elements := isElement_write plain s m
    by_cases here : n = m
    · subst here
      rw [plain] at elements
      simp only [Document.isElement, Option.isSome_eq_false_iff, Option.isNone_iff_eq_none]
        at elements plain
      rw [elements, plain]
    · exact tag?_congr (by rw [kind?_write, if_neg here])

/-- Setting a text keeps a document well-formed. -/
theorem WellFormed.setText (whole : d.WellFormed) (id : NodeId) (s : String) :
    (d.setText id s).WellFormed := by
  rw [setText_eq]
  exact (SameTree.write isElement_slot s).wellFormed (whole.lodge id)

/-! ## Moving a node -/

/-- A node may be moved below any node that it does not lie above. -/
theorem WellFormed.appendChild {p c : NodeId} (whole : d.WellFormed) (below : c < d.nodeCount)
    (inside : p < d.nodeCount) (free : ¬ d.Above c p) : (d.appendChild p c).WellFormed := by
  classical
  obtain ⟨links, rank, ranked⟩ := whole
  refine ⟨links.appendChild below inside, ?_⟩
  -- All that is moved is lifted above the new parent.
  refine ⟨fun n => if d.Above c n then rank n + rank p + 1 else rank n, fun x q up => ?_⟩
  rw [parent?_appendChild below] at up
  split at up
  · rename_i moved
    obtain rfl := Option.some.inj up
    have top : d.Above c x := moved ▸ Relation.ReflTransGen.refl
    simp only [free, top, if_true, if_false]
    omega
  · rename_i other
    have step := ranked x q up
    have same : d.Above c x ↔ d.Above c q := by
      constructor
      · intro above
        rcases Relation.ReflTransGen.cases_head above with here | ⟨r, first, rest⟩
        · exact absurd here other
        · obtain rfl : r = q := Option.some.inj (Eq.symm (up.symm.trans first))
          exact rest
      · exact fun above => Relation.ReflTransGen.head up above
    by_cases above : d.Above c q
    · simp only [same, above, if_true]
      omega
    · simp only [same, above, if_false]
      exact step

/-- No node lies above itself by way of others. -/
theorem WellFormed.acyclic (whole : d.WellFormed) (n : NodeId) : ¬ Relation.TransGen d.Up n n := by
  obtain ⟨rank, ranked⟩ := whole.ranked
  have smaller {a b : NodeId} (above : Relation.TransGen d.Up a b) : rank b < rank a := by
    induction above with
    | single up => exact ranked _ _ up
    | tail _ up ih => exact Nat.lt_trans (ranked _ _ up) ih
  exact fun cycle => Nat.lt_irrefl _ (smaller cycle)

/-! ## Edits -/

/-- What can be done to a document. -/
inductive Edit where
  | createElement (tag : String)
  | detach (id : NodeId)
  | appendChild (parent child : NodeId)
  | wrap (id : NodeId) (tag : String)
  | setText (id : NodeId) (s : String)
  | setAttribute (id : NodeId) (name value : String)
  | removeAttribute (id : NodeId) (name : String)
  | setStyle (id : NodeId) (property value : String)
  | removeStyle (id : NodeId) (property : String)
  | clean (svg : NodeId) (methods : List String)

/-- The document after an edit. -/
def edit (d : Document) : Edit → Document
  | .createElement tag => (d.createElement tag).1
  | .detach id => d.detach id
  | .appendChild parent child => d.appendChild parent child
  | .wrap id tag => (d.wrap id tag).1
  | .setText id s => d.setText id s
  | .setAttribute id name value => d.setAttribute id name value
  | .removeAttribute id name => d.removeAttribute id name
  | .setStyle id property value => d.setStyle id property value
  | .removeStyle id property => d.removeStyle id property
  | .clean svg methods => d.clean svg methods

/-- The document after some edits. -/
def editAll (d : Document) (edits : List Edit) : Document :=
  edits.foldl edit d

/-- Edits are of nodes that are there, and no node is moved into itself or below itself. -/
def Allowed (d : Document) : Edit → Prop
  | .createElement _ => True
  | .appendChild parent child =>
      parent < d.nodeCount ∧ child < d.nodeCount ∧ child ∉ d.lineage parent
  | .detach id | .wrap id _ | .setText id _ | .setAttribute id _ _ | .removeAttribute id _
  | .setStyle id _ _ | .removeStyle id _ | .clean id _ => id < d.nodeCount

instance (d : Document) : (e : Edit) → Decidable (d.Allowed e)
  | .createElement _ => inferInstanceAs (Decidable True)
  | .appendChild parent child => inferInstanceAs
      (Decidable (parent < d.nodeCount ∧ child < d.nodeCount ∧ child ∉ d.lineage parent))
  | .detach id | .wrap id _ | .setText id _ | .setAttribute id _ _ | .removeAttribute id _
  | .setStyle id _ _ | .removeStyle id _ | .clean id _ =>
      inferInstanceAs (Decidable (id < d.nodeCount))

/-- Every edit is allowed when it is made. -/
def AllAllowed (d : Document) : List Edit → Prop
  | [] => True
  | e :: rest => d.Allowed e ∧ (d.edit e).AllAllowed rest

instance decidableAllAllowed (d : Document) : (edits : List Edit) → Decidable (d.AllAllowed edits)
  | [] => inferInstanceAs (Decidable True)
  | e :: rest =>
      have := decidableAllAllowed (d.edit e) rest
      inferInstanceAs (Decidable (d.Allowed e ∧ (d.edit e).AllAllowed rest))

theorem SameTree.removeStyle (d : Document) (id : NodeId) (property : String) :
    SameTree d (d.removeStyle id property) := by
  unfold Document.removeStyle
  split
  · exact .refl d
  · dsimp only
    split
    · exact .removeAttribute d id "style"
    · exact .setAttribute d id "style" _

/-- One edit. -/
theorem WellFormed.edit (whole : d.WellFormed) {e : Edit} (allowed : d.Allowed e) :
    (d.edit e).WellFormed := by
  obtain ⟨rank, ranked⟩ := whole.ranked
  cases e with
  | createElement tag => exact ⟨whole.toLinked.create _, rank, ranked.create _⟩
  | detach id => exact ⟨whole.toLinked.detach, rank, ranked.detach⟩
  | appendChild parent child =>
      obtain ⟨inside, below, free⟩ := allowed
      exact whole.appendChild below inside fun above => free (whole.mem_lineage_iff.2 above)
  | wrap id tag => exact whole.wrap allowed tag
  | setText id s => exact whole.setText id s
  | setAttribute id name value => exact (SameTree.setAttribute d id name value).wellFormed whole
  | removeAttribute id name => exact (SameTree.removeAttribute d id name).wellFormed whole
  | setStyle id property value => exact (SameTree.setAttribute d id "style" _).wellFormed whole
  | removeStyle id property => exact (SameTree.removeStyle d id property).wellFormed whole
  | clean svg methods => exact (sameTree_clean d svg methods).wellFormed whole

/-- Any run of edits. -/
theorem WellFormed.editAll (whole : d.WellFormed) {edits : List Edit}
    (allowed : d.AllAllowed edits) : (d.editAll edits).WellFormed := by
  induction edits generalizing d with
  | nil => exact whole
  | cons e rest ih =>
      obtain ⟨here, later⟩ := allowed
      exact ih (whole.edit here) later

/-! ## The place of a wrapped node -/

theorem map_swap_of_not_mem {new : NodeId} {cs : List NodeId} (absent : id ∉ cs) :
    cs.map (swap id new) = cs := by
  refine (List.map_congr_left fun c member => ?_).trans (List.map_id' cs)
  exact if_neg fun (same : c = id) => absent (same ▸ member)

/-- The new group stands among the siblings where the node stood. -/
theorem WellFormed.children_wrap_of_split (whole : d.WellFormed) (below : id < d.nodeCount)
    (tag : String) {p : NodeId} {before after : List NodeId}
    (split : d.children p = before ++ id :: after) :
    (d.wrap id tag).1.children p = before ++ (d.wrap id tag).2 :: after := by
  have listed : id ∈ d.children p := by simp [split]
  have old : p ≠ d.nodeCount := Nat.ne_of_lt (lt_of_mem_children listed)
  have nodup := whole.nodup p
  rw [split, List.nodup_middle, List.nodup_cons, List.mem_append, not_or] at nodup
  rw [children_wrap whole.toLinked below, if_neg old, split, List.map_append, List.map_cons,
    map_swap_of_not_mem nodup.1.1, map_swap_of_not_mem nodup.1.2, wrap_snd whole.toLinked, swap,
    if_pos rfl]

/-- **Every edit keeps the tree.**  However a document that was read is edited, as long as no node
is moved into itself or below itself: all numbers of parents and children are those of nodes, a
node is among the children of another exactly when the other is its parent, no node is listed
twice, and following parents never leads back.  A node that is then wrapped leaves its place to
the new group, with all its siblings where they were. -/
theorem edits_keep_tree {text : String} (read : ofText? text = some d) {edits : List Edit}
    (allowed : d.AllAllowed edits) :
    let d' := d.editAll edits
    (∀ n p, d'.parent? n = some p → n < d'.nodeCount ∧ p < d'.nodeCount) ∧
      (∀ p, ∀ c ∈ d'.children p, p < d'.nodeCount ∧ c < d'.nodeCount) ∧
      (∀ p c, c ∈ d'.children p ↔ d'.parent? c = some p) ∧
      (∀ p, (d'.children p).Nodup) ∧
      (∀ n, ¬ Relation.TransGen d'.Up n n) ∧
      ∀ id < d'.nodeCount, ∀ tag,
        let wrapped := d'.wrap id tag
        wrapped.1.children wrapped.2 = [id] ∧
          wrapped.1.parent? wrapped.2 = d'.parent? id ∧
          (∀ p before after, d'.children p = before ++ id :: after →
            wrapped.1.children p = before ++ wrapped.2 :: after) ∧
          ∀ p, p ≠ wrapped.2 → id ∉ d'.children p → wrapped.1.children p = d'.children p := by
  intro d'
  obtain ⟨tree, -, rfl⟩ := Option.map_eq_some_iff.1 read
  have whole : d'.WellFormed := (wellFormed_ofTree tree).editAll allowed
  refine ⟨fun n p up => ⟨lt_of_parent? up, whole.lt_of_parent up⟩, fun p c listed => ?_,
    whole.mem_iff, whole.nodup, whole.acyclic, fun id below tag => ?_⟩
  · have up := (whole.mem_iff p c).1 listed
    exact ⟨whole.lt_of_parent up, lt_of_parent? up⟩
  · intro wrapped
    have group : wrapped.2 = d'.nodeCount := by
      rw [show wrapped = d'.wrap id tag from rfl, wrap_eq whole.toLinked]
    refine ⟨?_, ?_, fun p before after split => whole.children_wrap_of_split below tag split,
      fun p old absent => ?_⟩
    · rw [group, children_wrap whole.toLinked below, if_pos rfl]
    · rw [group, parent?_wrap whole.toLinked below, if_neg (Ne.symm (Nat.ne_of_lt below)),
        if_pos rfl]
    · rw [group] at old
      rw [children_wrap whole.toLinked below, if_neg old, map_swap_of_not_mem absent]

/-- The theorem at a drawing whose text is moved, set and put beside a new shape. -/
theorem edits_keep_tree_shape :
    let text := "<svg><text>a<tspan x='1'/></text><g/></svg>"
    let d := ofTree (.element "svg" []
      [.element "text" [] [.text "a", .element "tspan" [("x", "1")] []], .element "g" [] []])
    let edits : List Edit := [.appendChild 4 1, .wrap 4 "g", .setText 1 "b", .createElement "rect",
      .appendChild 5 6, .setStyle 6 "fill" "red", .removeStyle 6 "fill", .setAttribute 3 "y" "2",
      .removeAttribute 3 "x", .clean 0 ["all"], .detach 4]
    let wrapped := (d.editAll edits).wrap 6 "g"
    ofText? text = some d ∧ d.AllAllowed edits ∧
      (∀ n, ¬ Relation.TransGen (d.editAll edits).Up n n) ∧ wrapped.1.children 5 = [wrapped.2] := by
  intro text d edits wrapped
  have read : ofText? text = some d := by decide +kernel
  have allowed : d.AllAllowed edits := by decide +kernel
  have inside : 6 < (d.editAll edits).nodeCount := by decide +kernel
  have split : (d.editAll edits).children 5 = [] ++ 6 :: [] := by decide +kernel
  obtain ⟨-, -, -, -, acyclic, places⟩ := edits_keep_tree read allowed
  exact ⟨read, allowed, acyclic, (places 6 inside "g").2.2.1 5 [] [] split⟩

end Infographic.Markup.Document
