/-
# Infographic.Proofs.TextContent -- which edits leave texts as they are

No attribute and no group put around a node changes the text of a node
(`SameTexts.setAttribute`, `SameTexts.wrap`).  A node whose text was set tells this text
and holds nothing else (`tells_setText`), and it goes on telling it whatever texts are given to
other elements, even to elements around it (`Tells.setText`).
-/
import Infographic.Proofs.TreeEdits
import Infographic.Proofs.Unstyled

namespace Infographic.Markup.Document

set_option autoImplicit false

variable {d d' : Document} {id n c : NodeId} {s : String}

/-! ## The same texts -/

/-- Old nodes are elements as before and have the text that they had. -/
structure SameTexts (d d' : Document) : Prop where
  grown : d.nodeCount ≤ d'.nodeCount
  element : ∀ n < d.nodeCount, d'.isElement n = d.isElement n
  text : ∀ n < d.nodeCount, d'.text n = d.text n

namespace SameTexts

theorem refl (d : Document) : SameTexts d d :=
  ⟨Nat.le_refl _, fun _ _ => rfl, fun _ _ => rfl⟩

theorem trans {d'' : Document} (first : SameTexts d d') (second : SameTexts d' d'') :
    SameTexts d d'' where
  grown := Nat.le_trans first.grown second.grown
  element n old :=
    (second.element n (Nat.lt_of_lt_of_le old first.grown)).trans (first.element n old)
  text n old :=
    (second.text n (Nat.lt_of_lt_of_le old first.grown)).trans (first.text n old)

/-- Attributes are no part of a text. -/
theorem modifyAttributes (d : Document) (id : NodeId)
    (f : List (String × String) → List (String × String)) :
    SameTexts d (d.modifyAttributes id f) := by
  have main (fuel : Nat) (n : NodeId) :
      (d.modifyAttributes id f).textFrom fuel n = d.textFrom fuel n := by
    induction fuel generalizing n with
    | zero => rfl
    | succ fuel ih =>
        rw [textFrom, textFrom, kind?_modifyAttributes, children_modifyAttributes, funext ih]
        by_cases here : id = n
        · rw [if_pos here]
          rcases d.kind? n with - | (⟨tag, as⟩ | s) <;> rfl
        · rw [if_neg here]
  refine ⟨Nat.le_of_eq (nodeCount_modifyAttributes d id f).symm, fun n _ => ?_, fun n _ => ?_⟩
  · rw [isElement, tag?_modifyAttributes, isElement]
  · rw [Document.text, Document.text, nodeCount_modifyAttributes, main]

theorem setAttribute (d : Document) (id : NodeId) (name value : String) :
    SameTexts d (d.setAttribute id name value) :=
  modifyAttributes d id _

theorem removeAttribute (d : Document) (id : NodeId) (name : String) :
    SameTexts d (d.removeAttribute id name) :=
  modifyAttributes d id _

/-- A group around a node has the text of the node, and no other node has another one. -/
theorem wrap (whole : d.WellFormed) (below : id < d.nodeCount) (tag : String) :
    SameTexts d (d.wrap id tag).1 := by
  let d' := (d.wrap id tag).1
  have whole' : d'.WellFormed := whole.wrap below tag
  have count : d'.nodeCount = d.nodeCount + 1 := nodeCount_wrap whole.toLinked tag
  have kind (n : NodeId) : d'.kind? n =
      if n = d.nodeCount then some (.element tag []) else d.kind? n :=
    kind?_wrap whole.toLinked tag n
  have group : d'.text d.nodeCount = d'.text id := by
    rw [whole'.text_eq, kind, if_pos rfl, children_wrap whole.toLinked below, if_pos rfl]
    simp [String.join]
  refine ⟨Nat.le_of_lt (count ▸ Nat.lt_succ_self _), fun n old => ?_, fun n => ?_⟩
  · exact isElement_congr (by rw [kind, if_neg (Nat.ne_of_lt old)])
  induction n using whole.induction_children with
  | step n ih =>
      intro old
      have texts : (d'.children n).map d'.text = (d.children n).map d.text := by
        rw [children_wrap whole.toLinked below, if_neg (Nat.ne_of_lt old), List.map_map]
        refine List.map_congr_left fun c child => ?_
        have same := ih c child (lt_of_parent? ((whole.mem_iff n c).1 child))
        rw [Function.comp_apply, swap]
        by_cases here : c = id
        · rw [if_pos here, group, ← here, same]
        · rw [if_neg here, same]
      rw [whole'.text_eq, whole.text_eq n, kind, if_neg (Nat.ne_of_lt old), texts]

end SameTexts

/-! ## Nodes that tell a text -/

/-- An element that has a text as its only content. -/
structure Tells (d : Document) (id : NodeId) (s : String) : Prop where
  element : d.isElement id = true
  only : ∃ c, d.children id = [c] ∧ d.kind? c = some (.text s)

/-- Leaving out styles keeps the tree. -/
theorem SameTree.of_unstyled (same : d.unstyled = d'.unstyled) : SameTree d d' where
  root := by
    have root : d.unstyled.root = d'.unstyled.root := by rw [same]
    exact root.symm
  nodeCount := (nodeCount_of_unstyled same).symm
  parent? n := by rw [← parent?_unstyled, ← same, parent?_unstyled]
  children n := by rw [← children_unstyled, ← same, children_unstyled]
  tag? n := by rw [← tag?_unstyled, ← same, tag?_unstyled]

/-- Leaving out styles keeps every text. -/
theorem text_of_unstyled (same : d.unstyled = d'.unstyled) (kind : d.kind? c = some (.text s)) :
    d'.kind? c = some (.text s) := by
  have known : d'.unstyled.kind? c = some (.text s) := by
    rw [← same, kind?_unstyled, kind]
    rfl
  rw [kind?_unstyled] at known
  obtain ⟨kind', here, text⟩ := Option.map_eq_some_iff.1 known
  cases kind' with
  | element tag as => simp [NodeKind.unstyled] at text
  | text s' => rw [here, ← text, NodeKind.unstyled]

namespace Tells

theorem settled (told : d.Tells id s) : d.Settled id := by
  intro _
  obtain ⟨c, only, kind⟩ := told.only
  exact ⟨c, only, isText_iff.2 ⟨s, kind⟩⟩

theorem text (told : d.Tells id s) (whole : d.WellFormed) : d.text id = s := by
  obtain ⟨c, only, kind⟩ := told.only
  obtain ⟨tag, as, element⟩ := isElement_iff.1 told.element
  have below : d.text c = s := by rw [whole.text_eq, kind]
  rw [whole.text_eq, element, only]
  simp [String.join, below]

/-- Styles are no part of what a node tells. -/
theorem of_unstyled (told : d.Tells id s) (same : d.unstyled = d'.unstyled) : d'.Tells id s where
  element := by rw [← isElement_of_unstyled same, told.element]
  only := by
    obtain ⟨c, only, kind⟩ := told.only
    exact ⟨c, by rw [(SameTree.of_unstyled same).children, only], text_of_unstyled same kind⟩

end Tells

/-- A node tells the text that it was given. -/
theorem tells_setText (element : d.isElement id = true) (s : String) :
    (d.setText id s).Tells id s := by
  obtain ⟨only, text⟩ := children_lodge element
  obtain ⟨old, kind⟩ := isText_iff.1 text
  rw [setText_eq]
  refine ⟨by rw [isElement_write isElement_slot, isElement_lodge, element], d.slot id, ?_, ?_⟩
  · rw [children_write, only]
  · rw [kind?_write, if_pos rfl, kind]
    rfl

theorem kind?_lodge (old : n < d.nodeCount) : (d.lodge id).kind? n = d.kind? n := by
  cases element : d.isElement id with
  | false => rw [lodge_of_plain element]
  | true =>
      cases kept : (d.children id).find? d.isText with
      | some c =>
          rw [lodge_of_kept element kept]
          simp
      | none =>
          rw [lodge_of_new element kept]
          simp [kind?_create, Nat.ne_of_lt old]

/-- A node goes on telling its text when another element is given one. -/
theorem Tells.setText (told : d.Tells n s) (links : d.Linked) (element : d.isElement id = true)
    (other : id ≠ n) (text : String) : (d.setText id text).Tells n s := by
  obtain ⟨c, only, kind⟩ := told.only
  have up : d.parent? c = some n := (links.mem_iff n c).1 (by simp [only])
  have elsewhere : d.slot id ≠ c := by
    rintro rfl
    rcases links.slot_cases element with above | fresh
    · exact other (Option.some.inj (above.symm.trans up))
    · exact absurd (lt_of_parent? up) (by simp [fresh])
  refine ⟨by rw [isElement_setText, told.element], c, ?_, ?_⟩
  · rw [setText_eq, children_write, children_lodge_of_ne other, only]
  · rw [setText_eq, kind?_write, if_neg elsewhere, kind?_lodge (lt_of_kind? kind), kind]

/-! ## A pass over several texts -/

variable {ws : List (NodeId × String)}

/-- A node goes on telling its text unless it is given another one. -/
theorem Tells.setTexts (told : d.Tells n s) (whole : d.WellFormed)
    (elements : ∀ w ∈ ws, d.isElement w.1 = true) (agreed : ∀ w ∈ ws, w.1 = n → w.2 = s) :
    (d.setTexts ws).Tells n s := by
  induction ws generalizing d with
  | nil => exact told
  | cons w rest ih =>
      have element := elements w List.mem_cons_self
      have next : (d.setText w.1 w.2).Tells n s := by
        by_cases here : w.1 = n
        · rw [agreed w List.mem_cons_self here, here]
          exact tells_setText told.element s
        · exact told.setText whole.toLinked element here w.2
      refine ih next (whole.setText w.1 w.2) (fun v member => ?_)
        fun v member => agreed v (List.mem_cons_of_mem w member)
      rw [isElement_setText]
      exact elements v (List.mem_cons_of_mem w member)

/-- After a pass that gives no element two texts, each of them tells its text. -/
theorem tells_setTexts (whole : d.WellFormed) (elements : ∀ w ∈ ws, d.isElement w.1 = true)
    (agreed : ∀ v ∈ ws, ∀ w ∈ ws, v.1 = w.1 → v.2 = w.2) :
    (d.setTexts ws).WellFormed ∧ ∀ w ∈ ws, (d.setTexts ws).Tells w.1 w.2 := by
  induction ws generalizing d with
  | nil => exact ⟨whole, by simp⟩
  | cons w rest ih =>
      have here := elements w List.mem_cons_self
      have whole₁ : (d.setText w.1 w.2).WellFormed := whole.setText w.1 w.2
      have elements₁ : ∀ v ∈ rest, (d.setText w.1 w.2).isElement v.1 = true := by
        intro v member
        rw [isElement_setText]
        exact elements v (List.mem_cons_of_mem w member)
      obtain ⟨whole₂, later⟩ := ih whole₁ elements₁ fun u first v second =>
        agreed u (List.mem_cons_of_mem w first) v (List.mem_cons_of_mem w second)
      refine ⟨whole₂, fun v member => ?_⟩
      rcases List.mem_cons.1 member with rfl | inside
      · refine (tells_setText here v.2).setTexts whole₁ elements₁ fun u known same => ?_
        exact agreed u (List.mem_cons_of_mem v known) v List.mem_cons_self same
      · exact later v inside

/-- Where room was made for every text a pass makes no more nodes. -/
theorem nodeCount_setTexts (settled : ∀ w ∈ ws, d.Settled w.1) :
    (d.setTexts ws).nodeCount = d.nodeCount := by
  induction ws generalizing d with
  | nil => rfl
  | cons w rest ih =>
      have room := lodge_of_settled (settled w List.mem_cons_self)
      have plain : d.isElement (d.slot w.1) = false :=
        isElement_slot_of_settled (settled w List.mem_cons_self)
      have step : d.setText w.1 w.2 = d.write (d.slot w.1) w.2 := by rw [setText_eq, room]
      have later := ih (d := d.setText w.1 w.2) fun v member => by
        rw [step]
        exact (settled v (List.mem_cons_of_mem w member)).write plain w.2
      exact later.trans (by rw [step, nodeCount_write])

end Infographic.Markup.Document
