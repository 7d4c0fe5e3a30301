/-
# Infographic.Binding.Lookup -- finding elements by their ids

An id may hold a directive.  Elements are found by the option keys of that directive,
and by name: a plain id is a name, an id with a directive gives its text without tags
and the name in the directive.  The first element to claim a name keeps it.
-/
import Infographic.Directive.Basic
import Infographic.Markup.Document

namespace Infographic.Binding

set_option autoImplicit false

open Markup (Document NodeId)

/-- The options of the directive in an element's id, if it has one that can be read. -/
def idOptions? (d : Document) (id : NodeId) : Option Directive.Options :=
  ((d.attribute? id "id").bind Directive.ofTagged?).map Directive.options

/-- Whether the directive in an element's id has an option under one of some keys. -/
def hasOption (d : Document) (keys : List String) (id : NodeId) : Bool :=
  ((idOptions? d id).bind fun opts => opts.firstKey? keys).isSome

/-- The elements below a node whose id has an option under one of some keys. -/
def withOptions (d : Document) (root : NodeId) (keys : List String) : List NodeId :=
  (d.descendants root).filter (hasOption d keys)

/-- The options in an element's id; none where there is no directive to be read. -/
def optionsOf (d : Document) (id : NodeId) : Directive.Options :=
  (((d.attribute? id "id").bind fun s => (Directive.ofText s).toOption).map
    Directive.options).getD []

/-- Elements by name. -/
abbrev NameTable := List (String × NodeId)

namespace NameTable

def find? (names : NameTable) (name : String) : Option NodeId :=
  (List.find? (fun e => e.1 == name) names).map Prod.snd

/-- Claim a name for an element, unless it is taken. -/
def claim (names : NameTable) (name : String) (id : NodeId) : NameTable :=
  if (names.find? name).isSome then names else names ++ [(name, id)]

end NameTable

/-- The names an id claims, in order. -/
def namesOfId (s : String) : List String :=
  if Directive.hasTag s.toList then
    let base := String.ofList
      (Text.trimWhere (fun c => c == ' ' || c == '-') (Directive.stripTags s.toList))
    let named := match Directive.ofText s with
      | .ok directive => directive.name
      | .error _ => ""
    [base, named].filter fun name => !name.isEmpty
  else [s]

/-- The names of an element. -/
def namesOf (d : Document) (id : NodeId) : List String :=
  ((d.attribute? id "id").map namesOfId).getD []

/-- The elements by name, from a node down. -/
def nameTable (d : Document) (root : NodeId) : NameTable :=
  (root :: d.descendants root).foldl
    (fun names id => (namesOf d id).foldl (fun names name => names.claim name id) names) []

end Infographic.Binding
