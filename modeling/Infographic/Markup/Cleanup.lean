/-
# Infographic.Markup.Cleanup -- cleaning up drawings

Two repairs to drawings before they are used: `text` takes `x` and `y` from a `tspan`
whose parent already has them, so that replaced text does not jump; `decode` puts
escaped characters back into element ids.
-/
import Infographic.Directive.Escape
import Infographic.Markup.Document

namespace Infographic.Markup.Document

set_option autoImplicit false

/-- Whether a repair is asked for, by its name or by `all`. -/
def isAsked (methods : List String) (method : String) : Bool :=
  methods.any fun m => m == "all" || m == method

/-- Take a coordinate from a node whose parent has it. -/
def dropCoordinate (id : NodeId) (d : Document) (name : String) : Document :=
  match d.parent? id with
  | some p => if d.hasAttribute p name then d.removeAttribute id name else d
  | none => d

def cleanSpan (d : Document) (id : NodeId) : Document :=
  ["x", "y"].foldl (dropCoordinate id) d

/-- The repair `text`, parents before their children. -/
def cleanText (d : Document) (svg : NodeId) : Document :=
  (d.findAll svg ["tspan"]).foldl cleanSpan d

def decodeId (d : Document) (id : NodeId) : Document :=
  match d.attribute? id "id" with
  | some s =>
      let decoded := String.ofList (Directive.decode s.toList)
      if decoded = s then d else d.setAttribute id "id" decoded
  | none => d

/-- The repair `decode`. -/
def cleanIds (d : Document) (svg : NodeId) : Document :=
  (d.descendants svg).foldl decodeId d

/-- Clean up below a node. -/
def clean (d : Document) (svg : NodeId) (methods : List String) : Document :=
  let d := if isAsked methods "text" then d.cleanText svg else d
  if isAsked methods "decode" then d.cleanIds svg else d

end Infographic.Markup.Document
