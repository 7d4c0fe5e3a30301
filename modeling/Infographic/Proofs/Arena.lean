/-
# Infographic.Proofs.Arena -- what an edit changes, node by node

A document is looked at through the kind, the parent and the children of each node.  For
every edit the lemmas say what these are afterwards: an edit of attributes changes the kind
of one node only, an edit of children or parents keeps all kinds, and a new node changes no
other node.
-/
import Infographic.Markup.Document

namespace Infographic.Markup.Document

set_option autoImplicit false

variable {d d' : Document} {id n : NodeId}

/-- Documents with the same root and the same nodes are the same. -/
theorem ext_nodes (root : d.root = d'.root) (nodes : ∀ n : NodeId, d.nodes[n]? = d'.nodes[n]?) :
    d = d' := by
  have same : d.nodes = d'.nodes := Array.ext_getElem? nodes
  cases d; cases d'
  simp_all

/-! ## Changing a node -/

section

variable (d) (id) (f : Node → Node)

theorem nodes_modify (n : NodeId) :
    (d.modify id f).nodes[n]? = if id = n then d.nodes[n]?.map f else d.nodes[n]? :=
  Array.getElem?_modify

@[simp] theorem nodeCount_modify : (d.modify id f).nodeCount = d.nodeCount :=
  Array.size_modify

theorem kind?_modify (n : NodeId) :
    (d.modify id f).kind? n =
      if id = n then d.nodes[n]?.map (fun node => (f node).kind) else d.kind? n := by
  rw [kind?, nodes_modify]
  split
  · rw [Option.map_map]; rfl
  · rfl

theorem modify_modify (g : Node → Node) :
    (d.modify id f).modify id g = d.modify id (fun node => g (f node)) := by
  refine ext_nodes rfl fun n => ?_
  rw [nodes_modify, nodes_modify, nodes_modify]
  by_cases here : id = n
  · simp [here, Function.comp_def]
  · simp [here]

variable {id f} in
theorem modify_comm {other : NodeId} {g : Node → Node}
    (apart : id = other → ∀ node, g (f node) = f (g node)) :
    (d.modify id f).modify other g = (d.modify other g).modify id f := by
  refine ext_nodes rfl fun n => ?_
  simp only [nodes_modify]
  by_cases here : id = n
  · by_cases there : other = n
    · have swap := apart (here.trans there.symm)
      simp [here, there, Function.comp_def, swap]
    · simp [here, there]
  · by_cases there : other = n <;> simp [here, there]

end

theorem modify_eq_self {f : Node → Node} (same : ∀ node ∈ d.nodes[id]?, f node = node) :
    d.modify id f = d := by
  refine ext_nodes rfl fun n => ?_
  rw [nodes_modify]
  split
  · rename_i here
    subst here
    cases found : d.nodes[id]? with
    | none => rfl
    | some node => simp [same node found]
  · rfl

/-! ## Numbers that are out of range -/

theorem nodes_eq_none (out : d.nodeCount ≤ n) : d.nodes[n]? = none :=
  Array.getElem?_eq_none out

theorem lt_of_kind? {kind : NodeKind} (here : d.kind? n = some kind) : n < d.nodeCount := by
  refine Nat.lt_of_not_le fun out => ?_
  simp [kind?, nodes_eq_none out] at here

theorem lt_of_parent? {p : NodeId} (here : d.parent? n = some p) : n < d.nodeCount := by
  refine Nat.lt_of_not_le fun out => ?_
  simp [parent?, nodes_eq_none out] at here

theorem lt_of_mem_children {c : NodeId} (member : c ∈ d.children n) : n < d.nodeCount := by
  refine Nat.lt_of_not_le fun out => ?_
  simp [children, nodes_eq_none out] at member

theorem lt_of_isElement (element : d.isElement n = true) : n < d.nodeCount := by
  cases kind : d.kind? n with
  | none => simp [isElement, tag?, kind] at element
  | some k => exact lt_of_kind? kind

/-! ## Kinds -/

theorem isElement_iff : d.isElement n = true ↔ ∃ tag as, d.kind? n = some (.element tag as) := by
  unfold isElement tag?
  split <;> simp_all

theorem isText_iff : d.isText n = true ↔ ∃ s, d.kind? n = some (.text s) := by
  unfold isText
  split <;> simp_all

theorem tag?_congr (same : d.kind? n = d'.kind? n) : d.tag? n = d'.tag? n := by
  rw [tag?, tag?, same]

theorem isElement_congr (same : d.kind? n = d'.kind? n) : d.isElement n = d'.isElement n := by
  rw [isElement, isElement, tag?_congr same]

theorem isText_congr (same : d.kind? n = d'.kind? n) : d.isText n = d'.isText n := by
  rw [isText, isText, same]

theorem not_isElement_of_le (out : d.nodeCount ≤ n) : d.isElement n = false := by
  cases element : d.isElement n with
  | false => rfl
  | true => exact absurd (lt_of_isElement element) (Nat.not_lt.2 out)

theorem attributes_eq_nil (plain : d.isElement n = false) : d.attributes n = [] := by
  unfold attributes
  split
  · rename_i tag as kind
    simp [isElement, tag?, kind] at plain
  · rfl

theorem attributes_congr (same : d.kind? n = d'.kind? n) : d.attributes n = d'.attributes n := by
  rw [attributes, attributes, same]

theorem attribute?_congr (same : d.kind? n = d'.kind? n) (name : String) :
    d.attribute? n name = d'.attribute? n name := by
  rw [attribute?, attribute?, attributes_congr same]

/-! ## Entries under names -/

section

variable {name value : String} {entries : List (String × String)}

theorem find?_setEntry (q : String) :
    ((setEntry name value entries).find? (fun e => e.1 == q)).map Prod.snd =
      if q = name then some value else (entries.find? (fun e => e.1 == q)).map Prod.snd := by
  induction entries with
  | nil => by_cases here : q = name <;> simp [setEntry, here, Ne.symm]
  | cons e rest ih =>
      rw [setEntry]
      by_cases found : e.1 = name
      · rw [if_pos found]
        by_cases here : q = name
        · simp [here]
        · have other : ¬ e.1 = q := fun same => here (same ▸ found)
          simp [here, Ne.symm here, other]
      · rw [if_neg found]
        by_cases first : e.1 = q
        · have other : ¬ q = name := fun same => found (first.trans same)
          simp [first, other]
        · simpa [first] using ih

/-- An entry that holds a value already stays as it is. -/
theorem setEntry_eq_self (held : (entries.find? fun e => e.1 == name).map Prod.snd = some value) :
    setEntry name value entries = entries := by
  induction entries with
  | nil => simp at held
  | cons e rest ih =>
      rw [setEntry]
      by_cases found : e.1 = name
      · have same : e.2 = value := by simpa [found] using held
        rw [if_pos found, ← found, ← same]
      · rw [if_neg found, ih (by simpa [found] using held)]

theorem mem_setEntry {e : String × String} (member : e ∈ setEntry name value entries) :
    e = (name, value) ∨ e ∈ entries := by
  induction entries with
  | nil => exact .inl (by simpa [setEntry] using member)
  | cons a rest ih =>
      rw [setEntry] at member
      split at member
      · rcases List.mem_cons.1 member with here | later
        · exact .inl here
        · exact .inr (List.mem_cons_of_mem a later)
      · rcases List.mem_cons.1 member with rfl | later
        · exact .inr List.mem_cons_self
        · exact (ih later).imp_right (List.mem_cons_of_mem a)

theorem filter_setEntry :
    (setEntry name value entries).filter (fun e => e.1 != name) =
      entries.filter (fun e => e.1 != name) := by
  induction entries with
  | nil => simp [setEntry]
  | cons e rest ih =>
      rw [setEntry]
      by_cases found : e.1 = name
      · simp [found]
      · simp [found, ih]

theorem filter_removeEntry :
    (removeEntry name entries).filter (fun e => e.1 != name) =
      entries.filter (fun e => e.1 != name) := by
  induction entries with
  | nil => rfl
  | cons e rest ih =>
      rw [removeEntry]
      by_cases found : e.1 = name
      · simp [found]
      · simp [found, ih]

theorem find?_removeEntry {q : String} (other : q ≠ name) :
    (removeEntry name entries).find? (fun e => e.1 == q) = entries.find? fun e => e.1 == q := by
  induction entries with
  | nil => rfl
  | cons e rest ih =>
      rw [removeEntry]
      by_cases found : e.1 = name
      · simp [found, Ne.symm other]
      · simp [found, ih, List.find?_cons]

theorem removeEntry_eq_self (absent : ∀ e ∈ entries, e.1 ≠ name) :
    removeEntry name entries = entries := by
  induction entries with
  | nil => rfl
  | cons e rest ih =>
      have here := absent e List.mem_cons_self
      rw [removeEntry, if_neg here, ih fun e member => absent e (List.mem_cons_of_mem _ member)]

theorem removeEntry_comm (name other : String) :
    removeEntry name (removeEntry other entries) =
      removeEntry other (removeEntry name entries) := by
  induction entries with
  | nil => rfl
  | cons e rest ih =>
      by_cases first : e.1 = name
      · by_cases second : e.1 = other
        · rw [← first, ← second]
        · simp [removeEntry, first, show name ≠ other from first ▸ second]
      · by_cases second : e.1 = other
        · simp [removeEntry, second, show other ≠ name from second ▸ first]
        · simp [removeEntry, first, second, ih]

/-- An entry that was given a value is taken out like the old one. -/
theorem removeEntry_setEntry :
    removeEntry name (setEntry name value entries) = removeEntry name entries := by
  induction entries with
  | nil => simp [setEntry, removeEntry]
  | cons e rest ih =>
      rw [setEntry]
      by_cases found : e.1 = name
      · simp [found, removeEntry]
      · simp [found, removeEntry, ih]

end

/-! ## Changing attributes -/

section

variable (d) (id) (f : List (String × String) → List (String × String))

theorem kind?_modifyAttributes (n : NodeId) :
    (d.modifyAttributes id f).kind? n =
      if id = n then
        (d.kind? n).map fun
          | .element tag as => .element tag (f as)
          | .text s => .text s
      else d.kind? n := by
  rw [modifyAttributes, kind?_modify, kind?]
  split
  · rw [Option.map_map]
    congr 1
    funext node
    cases kind : node.kind <;> simp [kind]
  · rfl

@[simp] theorem nodeCount_modifyAttributes :
    (d.modifyAttributes id f).nodeCount = d.nodeCount :=
  nodeCount_modify d id _

@[simp] theorem parent?_modifyAttributes (n : NodeId) :
    (d.modifyAttributes id f).parent? n = d.parent? n := by
  rw [modifyAttributes, parent?, nodes_modify, parent?]
  split
  · cases d.nodes[n]? with
    | none => rfl
    | some node => simp only [Option.map_some, Option.bind_some]; split <;> rfl
  · rfl

@[simp] theorem children_modifyAttributes (n : NodeId) :
    (d.modifyAttributes id f).children n = d.children n := by
  rw [modifyAttributes, children, nodes_modify, children]
  split
  · cases d.nodes[n]? with
    | none => rfl
    | some node => simp only [Option.map_some, Option.getD_some]; split <;> rfl
  · rfl

@[simp] theorem tag?_modifyAttributes (n : NodeId) :
    (d.modifyAttributes id f).tag? n = d.tag? n := by
  rw [tag?, tag?, kind?_modifyAttributes]
  by_cases here : id = n
  · rw [if_pos here]
    rcases d.kind? n with - | (⟨tag, as⟩ | s) <;> rfl
  · rw [if_neg here]

theorem attributes_modifyAttributes (n : NodeId) :
    (d.modifyAttributes id f).attributes n =
      if id = n ∧ d.isElement n = true then f (d.attributes n) else d.attributes n := by
  rw [attributes, kind?_modifyAttributes]
  by_cases here : id = n
  · cases kind : d.kind? n with
    | none => simp [here, kind, isElement, tag?, attributes]
    | some k => cases k <;> simp [here, kind, isElement, tag?, attributes]
  · simp [here, attributes]

end

theorem attribute?_setAttribute (name value q : String) :
    (d.setAttribute id name value).attribute? n q =
      if id = n ∧ d.isElement n = true ∧ q = name then some value else d.attribute? n q := by
  rw [attribute?, setAttribute, attributes_modifyAttributes]
  by_cases here : id = n ∧ d.isElement n = true
  · rw [if_pos here, find?_setEntry]
    simp [here, attribute?]
  · rw [if_neg here, if_neg (fun all => here ⟨all.1, all.2.1⟩)]
    rfl

theorem setAttribute_eq_self {name value : String} (held : d.attribute? id name = some value) :
    d.setAttribute id name value = d := by
  refine modify_eq_self fun node found => ?_
  cases kind : node.kind with
  | text s => rfl
  | element tag as =>
      have attributes : d.attributes id = as := by
        simp [attributes, kind?, Option.mem_def.1 found, kind]
      have same : setEntry name value as = as :=
        setEntry_eq_self (by rwa [attribute?, attributes] at held)
      change { node with kind := .element tag (setEntry name value as) } = node
      rw [same, ← kind]

theorem attributes_removeAttribute_self (d : Document) (id : NodeId) (name : String) :
    (d.removeAttribute id name).attributes id = removeEntry name (d.attributes id) := by
  rw [removeAttribute, attributes_modifyAttributes]
  split
  · rfl
  · rename_i plain
    rw [attributes_eq_nil (by simpa using plain)]
    rfl

theorem attribute?_removeAttribute {name q : String} (other : q ≠ name) :
    (d.removeAttribute id name).attribute? n q = d.attribute? n q := by
  rw [attribute?, removeAttribute, attributes_modifyAttributes]
  split
  · rw [find?_removeEntry other]
    rfl
  · rfl

/-! ## Changing children and parents -/

section

variable (d) (id)

@[simp] theorem nodeCount_setChildren (cs : List NodeId) :
    (d.setChildren id cs).nodeCount = d.nodeCount :=
  nodeCount_modify d id _

@[simp] theorem kind?_setChildren (cs : List NodeId) (n : NodeId) :
    (d.setChildren id cs).kind? n = d.kind? n := by
  rw [setChildren, kind?_modify]
  split <;> rfl

@[simp] theorem parent?_setChildren (cs : List NodeId) (n : NodeId) :
    (d.setChildren id cs).parent? n = d.parent? n := by
  rw [setChildren, parent?, nodes_modify, parent?]
  split
  · cases d.nodes[n]? <;> rfl
  · rfl

theorem children_setChildren (cs : List NodeId) (n : NodeId) :
    (d.setChildren id cs).children n =
      if id = n ∧ n < d.nodeCount then cs else d.children n := by
  rw [setChildren, children, nodes_modify, children]
  by_cases here : id = n
  · by_cases inside : n < d.nodeCount
    · have found : d.nodes[n]? = some d.nodes[n] := Array.getElem?_eq_getElem inside
      simp [here, inside, found]
    · simp [here, inside, nodes_eq_none (Nat.le_of_not_lt inside)]
  · simp [here]

@[simp] theorem nodeCount_setParent (p : Option NodeId) :
    (d.setParent id p).nodeCount = d.nodeCount :=
  nodeCount_modify d id _

@[simp] theorem kind?_setParent (p : Option NodeId) (n : NodeId) :
    (d.setParent id p).kind? n = d.kind? n := by
  rw [setParent, kind?_modify]
  split <;> rfl

@[simp] theorem children_setParent (p : Option NodeId) (n : NodeId) :
    (d.setParent id p).children n = d.children n := by
  rw [setParent, children, nodes_modify, children]
  split
  · cases d.nodes[n]? <;> rfl
  · rfl

theorem parent?_setParent (p : Option NodeId) (n : NodeId) :
    (d.setParent id p).parent? n =
      if id = n ∧ n < d.nodeCount then p else d.parent? n := by
  rw [setParent, parent?, nodes_modify, parent?]
  by_cases here : id = n
  · by_cases inside : n < d.nodeCount
    · have found : d.nodes[n]? = some d.nodes[n] := Array.getElem?_eq_getElem inside
      simp [here, inside, found]
    · simp [here, inside, nodes_eq_none (Nat.le_of_not_lt inside)]
  · simp [here]

/-! ## New nodes -/

theorem nodes_create (kind : NodeKind) (n : NodeId) :
    (d.create kind).1.nodes[n]? = if n = d.nodeCount then some ⟨kind, none, []⟩ else d.nodes[n]? :=
  Array.getElem?_push

@[simp] theorem create_snd (kind : NodeKind) : (d.create kind).2 = d.nodeCount := rfl

@[simp] theorem nodeCount_create (kind : NodeKind) :
    (d.create kind).1.nodeCount = d.nodeCount + 1 :=
  Array.size_push _

theorem kind?_create (kind : NodeKind) (n : NodeId) :
    (d.create kind).1.kind? n = if n = d.nodeCount then some kind else d.kind? n := by
  rw [kind?, nodes_create]
  split <;> rfl

@[simp] theorem parent?_create (kind : NodeKind) (n : NodeId) :
    (d.create kind).1.parent? n = d.parent? n := by
  rw [parent?, nodes_create, parent?]
  split
  · rename_i here
    rw [here, nodes_eq_none (Nat.le_refl _)]
    rfl
  · rfl

@[simp] theorem children_create (kind : NodeKind) (n : NodeId) :
    (d.create kind).1.children n = d.children n := by
  rw [children, nodes_create, children]
  split
  · rename_i here
    rw [here, nodes_eq_none (Nat.le_refl _)]
    rfl
  · rfl

end

end Infographic.Markup.Document
