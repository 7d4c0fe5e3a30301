/-
# Infographic.Markup.Writer -- writing markup

Elements are written with their attributes in order, without content as one tag.  The
five characters with a meaning in markup are written as references everywhere, and
everything else as it is.
-/
import Infographic.Markup.Document

namespace Infographic.Markup

set_option autoImplicit false

/-- A character of text or of an attribute value. -/
def escapeChar (c : Char) : List Char :=
  if c = '<' then "&lt;".toList
  else if c = '>' then "&gt;".toList
  else if c = '&' then "&amp;".toList
  else if c = '\'' then "&apos;".toList
  else if c = '"' then "&quot;".toList
  else [c]

def escape (s : String) : List Char :=
  s.toList.flatMap escapeChar

/-- An attribute behind a space. -/
def writeAttribute (a : String × String) : List Char :=
  ' ' :: (a.1.toList ++ '=' :: '"' :: (escape a.2 ++ ['"']))

/-- The inside of a start tag. -/
def writeHead (tag : String) (attributes : List (String × String)) : List Char :=
  tag.toList ++ attributes.flatMap writeAttribute

/-- An element around written content. -/
def writeElement (tag : String) (attributes : List (String × String)) (empty : Bool)
    (content : List Char) : List Char :=
  if empty then '<' :: (writeHead tag attributes ++ "/>".toList)
  else '<' :: (writeHead tag attributes ++ '>' :: (content ++ "</".toList ++ tag.toList ++ ['>']))

namespace Document

/-- The markup of a node, with `fuel` for the height. -/
def markupFrom (d : Document) : Nat → NodeId → List Char
  | 0, _ => []
  | fuel + 1, id =>
      match d.kind? id with
      | some (.text s) => escape s
      | some (.element tag attributes) =>
          let children := d.children id
          writeElement tag attributes children.isEmpty (children.flatMap (markupFrom d fuel))
      | none => []

/-- The markup of a node with its own tag. -/
def outerMarkup (d : Document) (id : NodeId) : String :=
  String.ofList (d.markupFrom (d.nodeCount + 1) id)

/-- The markup of the children of a node. -/
def innerMarkup (d : Document) (id : NodeId) : String :=
  String.ofList ((d.children id).flatMap (d.markupFrom d.nodeCount))

/-- The markup of the whole document. -/
def markup (d : Document) : String :=
  d.outerMarkup d.root

end Document

end Infographic.Markup
