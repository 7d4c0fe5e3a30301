/-
# Infographic.Proofs.WithoutAttribute -- documents apart from the attributes under one name

Leaving out the attributes under one name keeps the tree, the texts and all other attributes.
What is edited under other names can be edited before or after leaving them out, and so can the
tree.
-/
import Infographic.Proofs.TreeShape

namespace Infographic.Markup

set_option autoImplicit false

/-- What a node is apart from the attributes under one name. -/
def NodeKind.without (key : String) : NodeKind → NodeKind
  | .element tag as => .element tag (as.filter fun a => a.1 != key)
  | .text s => .text s

/-- A node apart from its attributes under one name. -/
def Node.without (key : String) (node : Node) : Node :=
  { node with kind := node.kind.without key }

namespace Document

/-- A document apart from the attributes under one name. -/
def without (key : String) (d : Document) : Document :=
  { d with nodes := d.nodes.map (Node.without key) }

variable {key : String} {d d' : Document} {id n : NodeId}

/-! ## What can still be seen -/

theorem nodes_without (n : NodeId) :
    (d.without key).nodes[n]? = d.nodes[n]?.map (Node.without key) :=
  Array.getElem?_map ..

@[simp] theorem nodeCount_without : (d.without key).nodeCount = d.nodeCount :=
  Array.size_map

theorem kind?_without (n : NodeId) :
    (d.without key).kind? n = (d.kind? n).map (NodeKind.without key) := by
  rw [kind?, nodes_without, kind?, Option.map_map, Option.map_map]
  rfl

@[simp] theorem parent?_without (n : NodeId) : (d.without key).parent? n = d.parent? n := by
  rw [parent?, nodes_without, parent?, Option.bind_map]
  rfl

@[simp] theorem children_without (n : NodeId) : (d.without key).children n = d.children n := by
  rw [children, nodes_without, children, Option.map_map]
  rfl

@[simp] theorem tag?_without (n : NodeId) : (d.without key).tag? n = d.tag? n := by
  rw [tag?, tag?, kind?_without]
  rcases d.kind? n with - | (⟨tag, as⟩ | s) <;> rfl

theorem sameTree_without (key : String) (d : Document) : SameTree d (d.without key) :=
  ⟨rfl, nodeCount_without, parent?_without, children_without, tag?_without⟩

@[simp] theorem isElement_without (n : NodeId) : (d.without key).isElement n = d.isElement n :=
  (sameTree_without key d).isElement n

@[simp] theorem isText_without (n : NodeId) : (d.without key).isText n = d.isText n := by
  rw [isText, isText, kind?_without]
  rcases d.kind? n with - | (⟨tag, as⟩ | s) <;> rfl

theorem attributes_without (n : NodeId) :
    (d.without key).attributes n = (d.attributes n).filter fun a => a.1 != key := by
  rw [attributes, attributes, kind?_without]
  rcases d.kind? n with - | (⟨tag, as⟩ | s) <;> rfl

theorem attribute?_without {name : String} (other : name ≠ key) (n : NodeId) :
    (d.without key).attribute? n name = d.attribute? n name := by
  rw [attribute?, attributes_without, List.find?_filter, attribute?]
  congr 2
  funext a
  by_cases here : a.1 = name
  · simp [here, other]
  · simp [here]

theorem textFrom_without (fuel : Nat) (n : NodeId) :
    (d.without key).textFrom fuel n = d.textFrom fuel n := by
  induction fuel generalizing n with
  | zero => rfl
  | succ fuel ih =>
      rw [textFrom, textFrom, kind?_without, children_without, funext ih]
      rcases d.kind? n with - | (⟨tag, as⟩ | s) <;> rfl

@[simp] theorem text_without (n : NodeId) : (d.without key).text n = d.text n := by
  rw [text, text, nodeCount_without, textFrom_without]

/-! ## Edits of the tree -/

theorem without_modify {f g : Node → Node}
    (same : ∀ node, (f node).without key = g (node.without key)) :
    (d.modify id f).without key = (d.without key).modify id g := by
  refine ext_nodes rfl fun n => ?_
  rw [nodes_without, nodes_modify, nodes_modify, nodes_without]
  split
  · rw [Option.map_map, Option.map_map]
    exact congrArg (fun f => Option.map f d.nodes[n]?) (funext same)
  · rfl

theorem without_setParent (p : Option NodeId) :
    (d.setParent id p).without key = (d.without key).setParent id p :=
  without_modify fun _ => rfl

theorem without_setChildren (cs : List NodeId) :
    (d.setChildren id cs).without key = (d.without key).setChildren id cs :=
  without_modify fun _ => rfl

theorem without_create (kind : NodeKind) :
    (d.create kind).1.without key = ((d.without key).create (kind.without key)).1 := by
  refine ext_nodes rfl fun n => ?_
  rw [nodes_without, nodes_create, nodes_create, nodeCount_without, nodes_without]
  split <;> rfl

theorem without_detach : (d.detach id).without key = (d.without key).detach id := by
  unfold detach
  rw [parent?_without]
  split
  · rw [without_setChildren, without_setParent, children_without]
  · rfl

theorem without_appendChild (p c : NodeId) :
    (d.appendChild p c).without key = (d.without key).appendChild p c := by
  have placed : ((d.detach c).setParent c (some p)).without key =
      ((d.without key).detach c).setParent c (some p) := by
    rw [without_setParent, without_detach]
  rw [appendChild, appendChild, ← placed, without_setChildren, children_without]

/-! ## Edits of other attributes -/

theorem without_modifyAttributes {f : List (String × String) → List (String × String)}
    (same : ∀ as, (f as).filter (fun a => a.1 != key) = f (as.filter fun a => a.1 != key)) :
    (d.modifyAttributes id f).without key = (d.without key).modifyAttributes id f := by
  refine without_modify fun node => ?_
  obtain ⟨kind, parent, children⟩ := node
  cases kind with
  | element tag as => simp [Node.without, NodeKind.without, same]
  | text s => rfl

variable {name : String} (other : name ≠ key)

include other

theorem filter_setEntry_of_ne (value : String) (as : List (String × String)) :
    (setEntry name value as).filter (fun a => a.1 != key) =
      setEntry name value (as.filter fun a => a.1 != key) := by
  induction as with
  | nil => simp [setEntry, other]
  | cons a rest ih =>
      rw [setEntry]
      by_cases here : a.1 = name
      · simp [setEntry, here, other]
      · by_cases gone : a.1 = key
        · rw [if_neg here]
          simpa [gone] using ih
        · rw [if_neg here]
          simpa [setEntry, here, gone] using ih

theorem filter_removeEntry_of_ne (as : List (String × String)) :
    (removeEntry name as).filter (fun a => a.1 != key) =
      removeEntry name (as.filter fun a => a.1 != key) := by
  induction as with
  | nil => rfl
  | cons a rest ih =>
      rw [removeEntry]
      by_cases here : a.1 = name
      · simp [removeEntry, here, other]
      · by_cases gone : a.1 = key
        · rw [if_neg here]
          simpa [gone] using ih
        · rw [if_neg here]
          simpa [removeEntry, here, gone] using ih

theorem without_setAttribute (value : String) :
    (d.setAttribute id name value).without key = (d.without key).setAttribute id name value :=
  without_modifyAttributes (filter_setEntry_of_ne other value)

theorem without_removeAttribute :
    (d.removeAttribute id name).without key = (d.without key).removeAttribute id name :=
  without_modifyAttributes (filter_removeEntry_of_ne other)

end Document

end Infographic.Markup
