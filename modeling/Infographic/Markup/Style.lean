/-
# Infographic.Markup.Style -- inline styles

The `style` attribute is a list of declarations.  Changing one property keeps the
others and writes the whole list anew.
-/
import Infographic.Markup.Document
import Infographic.Text.Blank

namespace Infographic.Markup

set_option autoImplicit false

open Infographic.Text (splitAt cutWhere trim join)

/-- Property and value. -/
abbrev StyleList := List (String × String)

namespace StyleList

/-- A declaration; one without a colon or without a property is none. -/
def readDeclaration (cs : List Char) : Option (String × String) :=
  match cutWhere (· == ':') cs with
  | some (property, value) =>
      let property := trim property
      if property.isEmpty then none
      else some (String.ofList property, String.ofList (trim value))
  | none => none

/-- Read a style attribute. -/
def ofText (s : String) : StyleList :=
  (splitAt ';' s.toList).filterMap readDeclaration

def writeDeclaration (e : String × String) : List Char :=
  e.1.toList ++ ':' :: ' ' :: (e.2.toList ++ [';'])

/-- Write a style attribute. -/
def toText (style : StyleList) : String :=
  String.ofList (join [' '] (style.map writeDeclaration))

/-- The value of a property; of two declarations the first counts. -/
def find? (style : StyleList) (property : String) : Option String :=
  (List.find? (fun e => e.1 == property) style).map Prod.snd

end StyleList

namespace Document

/-- The inline style of a node. -/
def styleList (d : Document) (id : NodeId) : StyleList :=
  ((d.attribute? id "style").map StyleList.ofText).getD []

/-- The value of an inline style property. -/
def style? (d : Document) (id : NodeId) (property : String) : Option String :=
  (d.styleList id).find? property

/-- Give an inline style property a value. -/
def setStyle (d : Document) (id : NodeId) (property value : String) : Document :=
  d.setAttribute id "style" (StyleList.toText (setEntry property value (d.styleList id)))

/-- Take out an inline style property; an emptied attribute goes too. -/
def removeStyle (d : Document) (id : NodeId) (property : String) : Document :=
  match d.attribute? id "style" with
  | none => d
  | some s =>
      let rest := (StyleList.ofText s).filter fun e => e.1 != property
      if rest.isEmpty then d.removeAttribute id "style"
      else d.setAttribute id "style" (StyleList.toText rest)

end Document

end Infographic.Markup
