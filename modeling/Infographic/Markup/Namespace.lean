/-
# Infographic.Markup.Namespace -- namespaces

The declarations in scope at an element are its own, in order, and behind them those of
its parent that it does not override.  Of several default namespaces in one scope the
first counts.  Names are kept as they are written again: a namespace is written by the
first qualifier in scope that stands for it.
-/
import Infographic.Markup.Name

namespace Infographic.Markup

set_option autoImplicit false

/-- What the names of the two fixed namespaces begin with. -/
def fixedRoot : String := "http://www.w3.org/"

/-- The namespace of the qualifier `xml`, in scope everywhere. -/
def xmlNamespace : String := fixedRoot ++ "XML/1998/namespace"

/-- The namespace of namespace declarations. -/
def xmlnsNamespace : String := fixedRoot ++ "2000/xmlns/"

/-- A namespace declaration.  The default namespace has no qualifier. -/
structure Declaration where
  qualifier : Option String
  uri : String
  deriving Repr, DecidableEq

/-- The declarations in scope. -/
abbrev Scope := List Declaration

namespace Scope

/-- Put a declaration behind others, unless one of them is for its qualifier. -/
def inherit (s : Scope) (d : Declaration) : Scope :=
  if s.any fun e => e.qualifier == d.qualifier then s else s ++ [d]

/-- The scope of an element: its own declarations before those it inherits.  Without
own declarations it is the inherited scope as it stands, in which a default namespace
may be declared twice; else only the first of the two is inherited. -/
def extend (own inherited : Scope) : Scope :=
  if own.isEmpty then inherited else inherited.foldl inherit own

/-- The namespace a qualifier stands for. -/
def uri? (s : Scope) (qualifier : Option String) : Option String :=
  (s.find? fun d => d.qualifier == qualifier).map Declaration.uri

/-- The qualifier by which a namespace is written; the default namespace and a
namespace that is not in scope have none. -/
def qualifierFor? (s : Scope) (uri : String) : Option String :=
  if uri = xmlNamespace then some "xml"
  else (s.find? fun d => d.uri == uri).bind Declaration.qualifier

/-- A name in a namespace, as it is written. -/
def written (s : Scope) (uri : String) (name : String) : String :=
  match s.qualifierFor? uri with
  | some q => if q.isEmpty then name else q ++ ":" ++ name
  | none => name

/-- The declarations of a scope that an element has to write, because its parent does
not have them in scope. -/
def fresh (s inherited : Scope) : Scope :=
  s.filter fun d => !inherited.contains d

end Scope

/-- The attribute that makes a declaration. -/
def Declaration.toAttribute (d : Declaration) : String × String :=
  match d.qualifier with
  | some q => ("xmlns:" ++ q, d.uri)
  | none => ("xmlns", d.uri)

/-- An attribute as read, its value already normalized. -/
structure RawAttribute where
  name : QualifiedName
  value : String
  deriving Repr, DecidableEq

/-- The attributes of a start tag, sorted out: namespace declarations, and the others. -/
structure SortedAttributes where
  declarations : Scope
  attributes : List RawAttribute
  deriving Repr, DecidableEq

namespace SortedAttributes

def none : SortedAttributes := ⟨[], []⟩

/-- Sort out one attribute behind those before it.  Declarations that rebind reserved
names, and a qualifier declared twice, are refused. -/
def add (sorted : SortedAttributes) (a : RawAttribute) : Option SortedAttributes :=
  let localName := String.ofList a.name.localName
  let declare (d : Declaration) : SortedAttributes :=
    { sorted with declarations := sorted.declarations ++ [d] }
  if a.name.qualifier = "xmlns".toList then
    if a.value = xmlnsNamespace then .none
    else if (localName = "xml") != (a.value = xmlNamespace) then .none
    else if sorted.declarations.any (fun d => d.qualifier == some localName) then .none
    else if localName = "xml" then some sorted
    else some (declare ⟨some localName, a.value⟩)
  else if localName = "xmlns" then
    if a.value = xmlNamespace ∨ a.value = xmlnsNamespace then .none
    else some (declare ⟨.none, a.value⟩)
  else some { sorted with attributes := sorted.attributes ++ [a] }

/-- Sort out some attributes. -/
def addAll (sorted : SortedAttributes) (attributes : List RawAttribute) :
    Option SortedAttributes :=
  attributes.foldlM add sorted

end SortedAttributes

/-- The namespace of an attribute.  An attribute without qualifier has none; a qualifier
that is not declared is an error. -/
def attributeNamespace (s : Scope) (a : RawAttribute) : Option (Option String) :=
  if a.name.qualifier = "xml".toList then some (some xmlNamespace)
  else if a.name.qualifier.isEmpty then some none
  else (s.uri? (some (String.ofList a.name.qualifier))).map some

/-- The attributes of an element as they are written.  Two attributes of one name in
one namespace are refused. -/
def resolveAttributes (s : Scope) (attributes : List RawAttribute) :
    Option (List (String × String)) := do
  let resolved ← attributes.mapM fun a => do
    return (← attributeNamespace s a, String.ofList a.name.localName, a.value)
  let names := resolved.map fun a => (a.1, a.2.1)
  if names.eraseDups.length < names.length then none
  else
    return resolved.map fun (uri, name, value) =>
      match uri with
      | some uri => (s.written uri name, value)
      | none => (name, value)

/-- The tag of an element as it is written.  A qualifier that is not declared is an
error. -/
def resolveTag (s : Scope) (name : QualifiedName) : Option String :=
  let localName := String.ofList name.localName
  if name.qualifier.isEmpty then
    match s.uri? none with
    | some uri => some (s.written uri localName)
    | none => some localName
  else (s.uri? (some (String.ofList name.qualifier))).map fun uri => s.written uri localName

end Infographic.Markup
