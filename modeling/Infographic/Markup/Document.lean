/-
# Infographic.Markup.Document -- the editable tree

A document is an arena of numbered nodes with a parent and a list of children each.
Nodes are never taken out of the arena; a detached node keeps its number and its
children.  Numbers that no node has are read as a node without content, and edits to
them change nothing.
-/
import Infographic.Markup.Reader

namespace Infographic.Markup

set_option autoImplicit false

/-- The number of a node. -/
abbrev NodeId := Nat

/-- What a node is. -/
inductive NodeKind where
  | element (tag : String) (attributes : List (String × String))
  | text (s : String)
  deriving Repr, DecidableEq

/-- A node of the arena. -/
structure Node where
  kind : NodeKind
  parent : Option NodeId
  children : List NodeId
  deriving Repr, DecidableEq

/-- An editable tree. -/
structure Document where
  nodes : Array Node
  root : NodeId
  deriving Repr, DecidableEq

namespace Document

/-! ## Reading -/

/-- The number of nodes there ever were. -/
def nodeCount (d : Document) : Nat :=
  d.nodes.size

def kind? (d : Document) (id : NodeId) : Option NodeKind :=
  d.nodes[id]?.map Node.kind

def parent? (d : Document) (id : NodeId) : Option NodeId :=
  d.nodes[id]?.bind Node.parent

def children (d : Document) (id : NodeId) : List NodeId :=
  (d.nodes[id]?.map Node.children).getD []

/-- The tag of an element. -/
def tag? (d : Document) (id : NodeId) : Option String :=
  match d.kind? id with
  | some (.element tag _) => some tag
  | _ => none

def isElement (d : Document) (id : NodeId) : Bool :=
  (d.tag? id).isSome

def isText (d : Document) (id : NodeId) : Bool :=
  match d.kind? id with
  | some (.text _) => true
  | _ => false

def elementChildren (d : Document) (id : NodeId) : List NodeId :=
  (d.children id).filter d.isElement

/-- The elements below a node in document order, with `fuel` for the height. -/
def descendantsFrom (d : Document) : Nat → NodeId → List NodeId
  | 0, _ => []
  | fuel + 1, id =>
      (d.elementChildren id).flatMap fun c => c :: descendantsFrom d fuel c

/-- The elements below a node in document order.  A tree is never higher than it has
nodes. -/
def descendants (d : Document) (id : NodeId) : List NodeId :=
  d.descendantsFrom d.nodeCount id

/-- The elements below a node with one of some tags. -/
def findAll (d : Document) (id : NodeId) (tags : List String) : List NodeId :=
  (d.descendants id).filter fun n => (d.tag? n).any tags.contains

/-- The node itself if it has the tag, else the first element below it that has. -/
def findFirst? (d : Document) (id : NodeId) (tag : String) : Option NodeId :=
  if d.tag? id = some tag then some id
  else (d.descendants id).find? fun n => d.tag? n == some tag

/-- A node and those above it, with `fuel` for the depth. -/
def lineageFrom (d : Document) : Nat → NodeId → List NodeId
  | 0, _ => []
  | fuel + 1, id =>
      id :: match d.parent? id with
        | some p => lineageFrom d fuel p
        | none => []

/-- A node, its parent, and so on up to the root. -/
def lineage (d : Document) (id : NodeId) : List NodeId :=
  d.lineageFrom (d.nodeCount + 1) id

/-- The text of a node and of everything below it, with `fuel` for the height. -/
def textFrom (d : Document) : Nat → NodeId → String
  | 0, _ => ""
  | fuel + 1, id =>
      match d.kind? id with
      | some (.text s) => s
      | _ => String.join ((d.children id).map (textFrom d fuel))

/-- The text of a node and of everything below it. -/
def text (d : Document) (id : NodeId) : String :=
  d.textFrom (d.nodeCount + 1) id

/-! ## Attributes -/

def attributes (d : Document) (id : NodeId) : List (String × String) :=
  match d.kind? id with
  | some (.element _ attributes) => attributes
  | _ => []

/-- The value of an attribute. -/
def attribute? (d : Document) (id : NodeId) (name : String) : Option String :=
  ((d.attributes id).find? fun a => a.1 == name).map Prod.snd

def hasAttribute (d : Document) (id : NodeId) (name : String) : Bool :=
  (d.attribute? id name).isSome

/-- Replace the value of the first entry under a name, or add an entry at the end. -/
def setEntry (name value : String) : List (String × String) → List (String × String)
  | [] => [(name, value)]
  | a :: rest => if a.1 = name then (name, value) :: rest else a :: setEntry name value rest

/-- Take out the first entry under a name. -/
def removeEntry (name : String) : List (String × String) → List (String × String)
  | [] => []
  | a :: rest => if a.1 = name then rest else a :: removeEntry name rest

/-! ## Editing -/

/-- Change a node. -/
def modify (d : Document) (id : NodeId) (f : Node → Node) : Document :=
  { d with nodes := d.nodes.modify id f }

/-- Change the attributes of an element. -/
def modifyAttributes (d : Document) (id : NodeId)
    (f : List (String × String) → List (String × String)) : Document :=
  d.modify id fun n =>
    match n.kind with
    | .element tag attributes => { n with kind := .element tag (f attributes) }
    | .text _ => n

def setAttribute (d : Document) (id : NodeId) (name value : String) : Document :=
  d.modifyAttributes id (setEntry name value)

def removeAttribute (d : Document) (id : NodeId) (name : String) : Document :=
  d.modifyAttributes id (removeEntry name)

def setChildren (d : Document) (id : NodeId) (children : List NodeId) : Document :=
  d.modify id fun n => { n with children }

def setParent (d : Document) (id : NodeId) (parent : Option NodeId) : Document :=
  d.modify id fun n => { n with parent }

/-- A new node without parent and children; its number. -/
def create (d : Document) (kind : NodeKind) : Document × NodeId :=
  ({ d with nodes := d.nodes.push ⟨kind, none, []⟩ }, d.nodes.size)

/-- A new element without parent; its number. -/
def createElement (d : Document) (tag : String) : Document × NodeId :=
  d.create (.element tag [])

/-- Take a node from its parent. -/
def detach (d : Document) (id : NodeId) : Document :=
  match d.parent? id with
  | some p => (d.setParent id none).setChildren p ((d.children p).filter (· != id))
  | none => d

/-- Make a node the last child of another. -/
def appendChild (d : Document) (parent child : NodeId) : Document :=
  let d := (d.detach child).setParent child (some parent)
  d.setChildren parent (d.children parent ++ [child])

/-- Put `new` where `old` stands among the children of its parent. -/
def replaceChild (d : Document) (parent old new : NodeId) : Document :=
  let d := d.setChildren parent ((d.children parent).map fun c => if c = old then new else c)
  (d.setParent new (some parent)).setParent old none

/-- Put a new element where a node stands and the node inside it; its number. -/
def wrap (d : Document) (id : NodeId) (tag : String) : Document × NodeId :=
  let (d, group) := d.createElement tag
  let d := match d.parent? id with
    | some p => if (d.children p).contains id then d.replaceChild p id group else d
    | none => d
  (d.appendChild group id, group)

/-- Make a text the whole content of a node.  The first text among the children is used
again, so that repeated changes add no nodes; a text node just changes its text. -/
def setText (d : Document) (id : NodeId) (s : String) : Document :=
  match d.kind? id with
  | some (.element _ _) =>
      let old := d.children id
      let kept := old.find? d.isText
      let d := (old.filter fun c => some c != kept).foldl (fun d c => d.setParent c none) d
      match kept with
      | some c => (d.modify c fun n => { n with kind := .text s }).setChildren id [c]
      | none =>
          let (d, c) := d.create (.text s)
          (d.setParent c (some id)).setChildren id [c]
  | some (.text _) => d.modify id fun n => { n with kind := .text s }
  | none => d

/-! ## From a tree -/

mutual

/-- Add a tree at the end of an arena, nodes in document order. -/
def addTree (nodes : Array Node) (parent : Option NodeId) : Tree → Array Node
  | .element tag attributes children =>
      let id := nodes.size
      let grown := nodes.push ⟨.element tag attributes, parent, []⟩
      let (nodes, ids) := addTrees grown id children
      nodes.modify id fun n => { n with children := ids }
  | .text s => nodes.push ⟨.text s, parent, []⟩

/-- Add trees one behind the other; the numbers of their outermost nodes. -/
def addTrees (nodes : Array Node) (parent : NodeId) : List Tree → Array Node × List NodeId
  | [] => (nodes, [])
  | t :: rest =>
      let id := nodes.size
      let (nodes, ids) := addTrees (addTree nodes (some parent) t) parent rest
      (nodes, id :: ids)

end

/-- The document of a tree; its root is node 0. -/
def ofTree (t : Tree) : Document :=
  ⟨addTree #[] none t, 0⟩

/-- Read a document. -/
def ofText? (s : String) : Option Document :=
  (Tree.read s.toList).map ofTree

end Document

end Infographic.Markup
