/-
# Infographic.Proofs.Unstyled -- documents apart from their styles

Leaving out every style attribute keeps the tree, the texts and all other attributes.  An
edit of styles cannot be seen in what is left, and setting a text can be done before or
after leaving the styles out; it changes no style.
-/
import Infographic.Markup.Style
import Infographic.Proofs.TextPass
import Infographic.Proofs.WithoutAttribute

namespace Infographic.Markup

set_option autoImplicit false

/-- What a node is apart from its style. -/
def NodeKind.unstyled : NodeKind → NodeKind
  | .element tag as => .element tag (as.filter fun a => a.1 != "style")
  | .text s => .text s

/-- A node apart from its style. -/
def Node.unstyled (node : Node) : Node :=
  { node with kind := node.kind.unstyled }

namespace Document

/-- A document apart from its styles. -/
def unstyled (d : Document) : Document :=
  { d with nodes := d.nodes.map Node.unstyled }

variable {d d' : Document} {id n : NodeId}

/-! ## What can still be seen -/

-- Styles are the attributes under one name, so what is known of leaving out such attributes holds
-- as it stands.
theorem nodes_unstyled (n : NodeId) : d.unstyled.nodes[n]? = d.nodes[n]?.map Node.unstyled :=
  nodes_without n

@[simp] theorem nodeCount_unstyled : d.unstyled.nodeCount = d.nodeCount :=
  nodeCount_without

theorem kind?_unstyled (n : NodeId) : d.unstyled.kind? n = (d.kind? n).map NodeKind.unstyled :=
  kind?_without n

@[simp] theorem parent?_unstyled (n : NodeId) : d.unstyled.parent? n = d.parent? n :=
  parent?_without n

@[simp] theorem children_unstyled (n : NodeId) : d.unstyled.children n = d.children n :=
  children_without n

@[simp] theorem tag?_unstyled (n : NodeId) : d.unstyled.tag? n = d.tag? n :=
  tag?_without n

@[simp] theorem isElement_unstyled (n : NodeId) : d.unstyled.isElement n = d.isElement n :=
  isElement_without n

theorem nodeCount_of_unstyled (same : d.unstyled = d'.unstyled) : d.nodeCount = d'.nodeCount := by
  rw [← nodeCount_unstyled, same, nodeCount_unstyled]

theorem isElement_of_unstyled (same : d.unstyled = d'.unstyled) (n : NodeId) :
    d.isElement n = d'.isElement n := by
  rw [← isElement_unstyled, same, isElement_unstyled]

@[simp] theorem isText_unstyled (n : NodeId) : d.unstyled.isText n = d.isText n :=
  isText_without n

theorem attributes_unstyled (n : NodeId) :
    d.unstyled.attributes n = (d.attributes n).filter fun a => a.1 != "style" :=
  attributes_without n

theorem attribute?_unstyled {name : String} (other : name ≠ "style") (n : NodeId) :
    d.unstyled.attribute? n name = d.attribute? n name :=
  attribute?_without other n

@[simp] theorem text_unstyled (n : NodeId) : d.unstyled.text n = d.text n :=
  text_without n

/-- A document is known by what it is apart from its styles and by its attributes. -/
theorem ext_unstyled (same : d.unstyled = d'.unstyled)
    (attributes : ∀ n, d.attributes n = d'.attributes n) : d = d' := by
  have root : d.unstyled.root = d'.unstyled.root := by rw [same]
  refine ext_nodes root fun n => ?_
  have nodes : d.nodes[n]?.map Node.unstyled = d'.nodes[n]?.map Node.unstyled := by
    rw [← nodes_unstyled, ← nodes_unstyled, same]
  have here := attributes n
  rw [Document.attributes, Document.attributes, kind?, kind?] at here
  cases first : d.nodes[n]? with
  | none =>
      rw [first, Option.map_none, eq_comm, Option.map_eq_none_iff] at nodes
      exact nodes.symm
  | some node =>
      cases second : d'.nodes[n]? with
      | none => simp [first, second] at nodes
      | some node' =>
          obtain ⟨kind, parent, children⟩ := node
          obtain ⟨kind', parent', children'⟩ := node'
          cases kind <;> cases kind' <;>
            simp_all [Node.unstyled, NodeKind.unstyled]

/-! ## Edits of styles -/

/-- An edit of attributes that keeps all but the style cannot be seen. -/
theorem unstyled_modifyAttributes
    {f : List (String × String) → List (String × String)}
    (same : ∀ as, (f as).filter (fun a => a.1 != "style") = as.filter fun a => a.1 != "style") :
    (d.modifyAttributes id f).unstyled = d.unstyled := by
  refine ext_nodes rfl fun n => ?_
  rw [nodes_unstyled, nodes_unstyled, modifyAttributes, nodes_modify]
  split
  · rw [Option.map_map]
    congr 1
    funext node
    cases kind : node.kind <;> simp [Node.unstyled, NodeKind.unstyled, kind, same]
  · rfl

@[simp] theorem unstyled_setStyle (property value : String) :
    (d.setStyle id property value).unstyled = d.unstyled :=
  unstyled_modifyAttributes fun _ => filter_setEntry

@[simp] theorem unstyled_removeStyle (property : String) :
    (d.removeStyle id property).unstyled = d.unstyled := by
  unfold removeStyle
  split
  · rfl
  · dsimp only
    split
    · exact unstyled_modifyAttributes fun _ => filter_removeEntry
    · exact unstyled_modifyAttributes fun _ => filter_setEntry

/-! ## Setting texts -/

theorem unstyled_modify {f g : Node → Node} (same : ∀ node, (f node).unstyled = g node.unstyled) :
    (d.modify id f).unstyled = d.unstyled.modify id g :=
  without_modify same

theorem unstyled_setParent (p : Option NodeId) :
    (d.setParent id p).unstyled = d.unstyled.setParent id p :=
  without_setParent p

theorem unstyled_setChildren (cs : List NodeId) :
    (d.setChildren id cs).unstyled = d.unstyled.setChildren id cs :=
  without_setChildren cs

theorem unstyled_write (s : String) : (d.write n s).unstyled = d.unstyled.write n s :=
  unstyled_modify fun _ => rfl

theorem unstyled_create_text (s : String) :
    (d.create (.text s)).1.unstyled = (d.unstyled.create (.text s)).1 :=
  without_create (.text s)

theorem unstyled_orphan (ids : List NodeId) : (d.orphan ids).unstyled = d.unstyled.orphan ids := by
  induction ids generalizing d with
  | nil => rfl
  | cons c rest ih =>
      have first : (d.setParent c none).unstyled = d.unstyled.setParent c none :=
        unstyled_setParent none
      have later := ih (d := d.setParent c none)
      rw [first] at later
      exact later

theorem slot_unstyled (id : NodeId) : d.unstyled.slot id = d.slot id := by
  cases element : d.isElement id with
  | false => rw [slot_of_plain element, slot_of_plain (by rw [isElement_unstyled, element])]
  | true =>
      rw [slot_of_element element, slot_of_element (by rw [isElement_unstyled, element]),
        children_unstyled, nodeCount_unstyled, funext isText_unstyled]

theorem unstyled_lodge (id : NodeId) : (d.lodge id).unstyled = d.unstyled.lodge id := by
  cases element : d.isElement id with
  | false => rw [lodge_of_plain element, lodge_of_plain (by rw [isElement_unstyled, element])]
  | true =>
      have element' : d.unstyled.isElement id = true := by rw [isElement_unstyled, element]
      have texts : (d.unstyled.children id).find? d.unstyled.isText =
          (d.children id).find? d.isText := by
        rw [children_unstyled, funext isText_unstyled]
      cases kept : (d.children id).find? d.isText with
      | some c =>
          rw [lodge_of_kept element kept, lodge_of_kept element' (texts.trans kept),
            unstyled_setChildren, unstyled_orphan, children_unstyled]
      | none =>
          rw [lodge_of_new element kept, lodge_of_new element' (texts.trans kept),
            unstyled_setChildren, unstyled_setParent, unstyled_create_text, unstyled_orphan,
            children_unstyled, nodeCount_unstyled]

theorem unstyled_setText (id : NodeId) (s : String) :
    (d.setText id s).unstyled = d.unstyled.setText id s := by
  rw [setText_eq, unstyled_write, unstyled_lodge, setText_eq, slot_unstyled]

theorem unstyled_setTexts (ws : List (NodeId × String)) :
    (d.setTexts ws).unstyled = d.unstyled.setTexts ws := by
  induction ws generalizing d with
  | nil => rfl
  | cons w rest ih =>
      have later := ih (d := d.setText w.1 w.2)
      rw [unstyled_setText] at later
      exact later

/-! ## Texts and attributes -/

theorem attributes_write (plain : d.isElement id = false) (s : String) (n : NodeId) :
    (d.write id s).attributes n = d.attributes n := by
  by_cases here : id = n
  · subst here
    rw [attributes_eq_nil plain, attributes_eq_nil (by rw [isElement_write plain, plain])]
  · exact attributes_congr (by simp [kind?_write, here])

theorem attributes_lodge (id n : NodeId) : (d.lodge id).attributes n = d.attributes n := by
  cases other : d.isElement n with
  | false => rw [attributes_eq_nil other, attributes_eq_nil (by rw [isElement_lodge, other])]
  | true =>
      have old := lt_of_isElement other
      cases element : d.isElement id with
      | false => rw [lodge_of_plain element]
      | true =>
          cases kept : (d.children id).find? d.isText with
          | some c => rw [lodge_of_kept element kept]; exact attributes_congr (by simp)
          | none =>
              rw [lodge_of_new element kept]
              exact attributes_congr (by simp [kind?_create, Nat.ne_of_lt old])

/-- Setting a text changes no attribute. -/
theorem attributes_setText (id : NodeId) (s : String) (n : NodeId) :
    (d.setText id s).attributes n = d.attributes n := by
  rw [setText_eq, attributes_write isElement_slot, attributes_lodge]

theorem isElement_setText (id : NodeId) (s : String) (n : NodeId) :
    (d.setText id s).isElement n = d.isElement n := by
  rw [setText_eq, isElement_write isElement_slot, isElement_lodge]

/-- Setting a text changes no style. -/
theorem style?_setText (id : NodeId) (s : String) (n : NodeId) (q : String) :
    (d.setText id s).style? n q = d.style? n q := by
  rw [style?, style?, styleList, styleList, attribute?, attribute?, attributes_setText]

theorem attributes_setTexts (ws : List (NodeId × String)) (n : NodeId) :
    (d.setTexts ws).attributes n = d.attributes n := by
  induction ws generalizing d with
  | nil => rfl
  | cons w rest ih => exact (ih (d := d.setText w.1 w.2)).trans (attributes_setText w.1 w.2 n)

theorem setTexts_frame (ws : List (NodeId × String)) (n : NodeId) :
    (d.setTexts ws).isElement n = d.isElement n ∧
      ∀ q, (d.setTexts ws).style? n q = d.style? n q := by
  induction ws generalizing d with
  | nil => exact ⟨rfl, fun _ => rfl⟩
  | cons w rest ih =>
      obtain ⟨element, style⟩ := ih (d := d.setText w.1 w.2)
      exact ⟨element.trans (isElement_setText w.1 w.2 n),
        fun q => (style q).trans (style?_setText w.1 w.2 n q)⟩

end Document

end Infographic.Markup
