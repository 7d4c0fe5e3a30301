/-
# Infographic.Markup.Reader -- reading markup

Reads XML with namespaces and the internal entities of a document type.  Comments and
processing instructions are dropped, but text on their two sides stays apart.  An
entity is read where it is referred to; at most ten references may be nested, with at
most 255 references inside an outermost one.
-/
import Infographic.Markup.Namespace
import Infographic.Text.Cut

namespace Infographic.Markup

set_option autoImplicit false

open Infographic.Text (afterWord cutAt)

/-- A tree of elements and text. -/
inductive Tree where
  | element (tag : String) (attributes : List (String × String)) (children : List Tree)
  | text (s : String)

/-! ## References -/

/-- What a reference stands for. -/
inductive Reference where
  | char (c : Char)
  | entity (name : List Char)

/-- The number of a character reference, below `2 ^ 32`. -/
def readCharNumber : List Char → Option (Nat × List Char)
  | 'x' :: cs =>
      let isHex := fun (c : Char) =>
        c.isDigit || ('a' ≤ c && c ≤ 'f') || ('A' ≤ c && c ≤ 'F')
      let ds := cs.takeWhile isHex
      let value := ds.foldl (fun n c =>
        16 * n + (if c.isDigit then c.toNat - '0'.toNat else c.toLower.toNat - 'a'.toNat + 10)) 0
      if ds.isEmpty || Nat.pow 2 32 ≤ value then none else some (value, cs.dropWhile isHex)
  | cs =>
      let ds := cs.takeWhile Char.isDigit
      let value := ds.foldl (fun n c => 10 * n + (c.toNat - '0'.toNat)) 0
      if ds.isEmpty || Nat.pow 2 32 ≤ value then none else some (value, cs.dropWhile Char.isDigit)

/-- The character with a number; numbers that are no character give the replacement
character. -/
def charOfNumber (n : Nat) : Char :=
  if n.isValidChar then Char.ofNat n else Char.ofNat 0xFFFD

/-- A name or a number behind an ampersand. -/
def readReferenceBody : List Char → Option (Reference × List Char)
  | '#' :: cs => do
      let (n, rest) ← readCharNumber cs
      let c := charOfNumber n
      if isXmlChar c then return (.char c, rest) else none
  | cs => do
      let (name, rest) ← readName cs
      let r : Reference :=
        if name = "quot".toList then .char '"'
        else if name = "amp".toList then .char '&'
        else if name = "apos".toList then .char '\''
        else if name = "lt".toList then .char '<'
        else if name = "gt".toList then .char '>'
        else .entity name
      return (r, rest)

/-- A reference behind its ampersand, closed by a semicolon. -/
def readReference (cs : List Char) : Option (Reference × List Char) :=
  match readReferenceBody cs with
  | some (r, ';' :: rest) => some (r, rest)
  | _ => none

/-! ## Entities -/

/-- The values of the declared entities by name; of two declarations the first
counts. -/
abbrev Entities := List (List Char × List Char)

def Entities.find? (entities : Entities) (name : List Char) : Option (List Char) :=
  (List.find? (fun e => e.1 == name) entities).map Prod.snd

/-- How deep references are nested, and how many there were inside the outermost. -/
structure Nesting where
  depth : Nat
  references : Nat

namespace Nesting

def none : Nesting := ⟨0, 0⟩

/-- Follow a reference. -/
def enter (n : Nesting) : Option Nesting :=
  if n.depth ≠ 0 ∧ n.references = 255 then .none
  else if 10 ≤ n.depth then .none
  else some ⟨n.depth + 1, if n.depth = 0 then n.references else n.references + 1⟩

/-- Come back from a reference. -/
def leave (n : Nesting) : Nesting :=
  if n.depth ≤ 1 then ⟨0, 0⟩ else ⟨n.depth - 1, n.references⟩

end Nesting

/-! ## Attribute values -/

/-- White space in an attribute value is a space. -/
def attributeChar (c : Char) : Char :=
  if c = '\n' ∨ c = '\r' ∨ c = '\t' then ' ' else c

/-- Normalize an attribute value, onto what was normalized before (backwards).
References to characters stay as they are, except inside entities, where one to `<` is
refused.  What an entity holds is taken as plain characters, tags too. -/
def normalizeValue (entities : Entities) :
    Nat → Nesting → List Char → List Char → Option (Nesting × List Char)
  | 0, _, _, _ => none
  | fuel + 1, nesting, acc, cs =>
      match cs with
      | [] => some (nesting, acc)
      | '&' :: rest => do
          match ← readReference rest with
          | (.char c, rest) =>
              if nesting.depth = 0 then normalizeValue entities fuel nesting (c :: acc) rest
              else if c = '<' then none
              else normalizeValue entities fuel nesting (attributeChar c :: acc) rest
          | (.entity name, rest) => do
              let value ← entities.find? name
              let inner ← nesting.enter
              let (inner, acc) ← normalizeValue entities fuel inner acc value
              normalizeValue entities fuel inner.leave acc rest
      | '\r' :: '\n' :: rest => normalizeValue entities fuel nesting acc ('\n' :: rest)
      | c :: rest => normalizeValue entities fuel nesting (attributeChar c :: acc) rest

/-! ## Building the tree -/

/-- How a start tag ends. -/
inductive TagEnd where
  /-- The element has no content. -/
  | empty
  /-- Content follows. -/
  | opening
  /-- The text is over before the tag is. -/
  | broken

/-- An element that is not closed yet, its children backwards. -/
structure OpenElement where
  name : QualifiedName
  tag : String
  attributes : List (String × String)
  scope : Scope
  children : List Tree

/-- What has been read so far. -/
structure State where
  entities : Entities
  nesting : Nesting
  /-- The elements that are open, the innermost first. -/
  stack : List OpenElement
  /-- The finished outermost element. -/
  root : Option Tree
  /-- The last child is text that further text joins. -/
  joins : Bool
  /-- What tags that an entity breaks off leave to the next tag. -/
  pending : SortedAttributes
  /-- A start tag was read since the text or entity at hand began. -/
  started : Bool

namespace State

def start : State :=
  { entities := [], nesting := .none, stack := [], root := none, joins := false
    pending := .none, started := false }

/-- Put a node behind the last child of the innermost open element. -/
def add (st : State) (t : Tree) : State :=
  match st.stack with
  | [] => { st with root := st.root.or (some t), joins := false }
  | e :: outer =>
      { st with stack := { e with children := t :: e.children } :: outer, joins := false }

/-- Add text; it joins the text directly before it. -/
def addText (st : State) (cs : List Char) : State :=
  match st.joins, st.stack with
  | true, e :: outer =>
      match e.children with
      | .text s :: others =>
          let joined := Tree.text (s ++ String.ofList cs)
          { st with stack := { e with children := joined :: others } :: outer }
      | _ => st
  | _, _ => { st.add (.text (String.ofList cs)) with joins := true }

/-- The declarations in scope inside the innermost open element. -/
def scope (st : State) : Scope :=
  match st.stack with
  | [] => []
  | e :: _ => e.scope

/-- Resolve a start tag, its attributes and declarations sorted out. -/
def resolve (st : State) (name : QualifiedName) (sorted : SortedAttributes) :
    Option OpenElement := do
  let scope := Scope.extend sorted.declarations st.scope
  let resolved ← resolveAttributes scope sorted.attributes
  let tag ← resolveTag scope name
  let declared := (scope.fresh st.scope).map Declaration.toAttribute
  return ⟨name, tag, declared ++ resolved, scope, []⟩

/-- Open an element. -/
def openElement (st : State) (e : OpenElement) : State :=
  { st with stack := e :: st.stack, joins := false, pending := .none, started := true }

/-- Add an element without content. -/
def addEmpty (st : State) (e : OpenElement) : State :=
  { st.add (.element e.tag e.attributes []) with pending := .none, started := true }

/-- Take in a start tag of which `ending` is the end.  One that is broken off is no
element, but its attributes wait for the next tag. -/
def addStartTag (st : State) (name : QualifiedName) (attributes : List RawAttribute)
    (ending : TagEnd) : Option State := do
  if name.qualifier = "xmlns".toList then none
  else do
    let sorted ← st.pending.addAll attributes
    match ending with
    | .broken => return { st with joins := false, pending := sorted }
    | .empty => return st.addEmpty (← st.resolve name sorted)
    | .opening => return st.openElement (← st.resolve name sorted)

/-- Close the innermost element, whose end tag must repeat the name of its start tag as
written.  Attributes that wait must make sense here and are lost. -/
def closeElement (st : State) (name : QualifiedName) : Option State :=
  match st.stack with
  | [] => none
  | e :: outer => do
      let _ ← resolveAttributes (Scope.extend st.pending.declarations e.scope)
        st.pending.attributes
      if st.started ∧ e.name = name then
        return { st with stack := outer, pending := .none }.add
          (.element e.tag e.attributes e.children.reverse)
      else none

end State

/-! ## Start tags -/

/-- The attributes of a start tag up to its end, their values not normalized; how the tag
ends; and what follows it. -/
def readAttributes : Nat → List Char →
    Option (List (QualifiedName × List Char) × TagEnd × List Char)
  | 0, _ => none
  | _ + 1, [] => some ([], .broken, [])
  | fuel + 1, cs =>
      match skipSpaces cs with
      | '/' :: '>' :: rest => some ([], .empty, rest)
      | '/' :: _ => none
      | '>' :: rest => some ([], .opening, rest)
      | afterSpaces => do
          let _ ← needSpaces cs
          let (name, rest) ← QualifiedName.read afterSpaces
          match skipSpaces rest with
          | '=' :: rest => do
              let (quote, rest) ← readQuote (skipSpaces rest)
              let (value, rest) ← readQuoted quote rest
              if value.all (fun c => isXmlChar c && c != '<') then do
                let (others, ending, rest) ← readAttributes fuel rest
                return ((name, value) :: others, ending, rest)
              else none
          | _ => none

/-- Normalize the values of attributes, one after the other. -/
def normalizeAttributes (entities : Entities) (fuel : Nat) :
    Nesting → List (QualifiedName × List Char) → Option (Nesting × List RawAttribute)
  | nesting, [] => some (nesting, [])
  | nesting, (name, value) :: others => do
      let (nesting, acc) ← normalizeValue entities fuel nesting [] value
      let (nesting, others) ← normalizeAttributes entities fuel nesting others
      return (nesting, ⟨name, String.ofList acc.reverse⟩ :: others)

/-! ## Comments, instructions and character data -/

/-- A comment behind its opening mark. -/
def skipComment (cs : List Char) : Option (List Char) := do
  let (body, rest) ← cutAt "-->".toList cs
  if body.all isXmlChar && (cutAt "--".toList body).isNone && body.getLast? != some '-' then
    return rest
  else none

/-- A processing instruction behind its opening mark. -/
def skipInstruction (cs : List Char) : Option (List Char) := do
  if (afterWord "xml ".toList cs).isSome then none
  else do
    let (_, rest) ← readName cs
    let (body, rest) ← cutAt "?>".toList (skipSpaces rest)
    if body.all isXmlChar then return rest else none

/-- Add a character of text to what was read before it (backwards).  A line break in any
of its three forms is a line feed; a carriage return is settled by what follows it. -/
def pushText (acc : List Char) (c : Char) (last : Bool) : List Char :=
  match acc with
  | '\r' :: before =>
      if last && c == '\r' then '\n' :: '\n' :: before
      else if c != '\n' then c :: '\n' :: before
      else '\n' :: before
  | _ => if last && c == '\r' then '\n' :: acc else c :: acc

/-- The text of a character data section. -/
def sectionText : List Char → List Char → List Char
  | acc, [] => acc.reverse
  | acc, c :: rest => sectionText (pushText acc c rest.isEmpty) rest

/-- Whether a text may stand outside tags: legal characters, and no end mark of a
character data section. -/
def isLegalText (cs : List Char) : Bool :=
  cs.all isXmlChar && (cutAt "]]>".toList cs).isNone

/-! ## Content -/

mutual

/-- Read content inside `level` elements opened since the content began, up to the end
tag that closes one element more, or to the end of the text.  The fuel bounds the
tokens on any path through nested entities. -/
def readContent : Nat → Nat → State → List Char → Option (State × List Char)
  | 0, _, _, _ => none
  | fuel + 1, level, st, cs =>
      match cs with
      | [] => some (st, [])
      | '<' :: '!' :: '-' :: '-' :: rest => do
          let rest ← skipComment rest
          readContent fuel level { st with joins := false } rest
      | '<' :: '!' :: rest => do
          let rest ← afterWord "[CDATA[".toList rest
          let (body, rest) ← cutAt "]]>".toList rest
          if body.all isXmlChar then
            readContent fuel level (st.addText (sectionText [] body)) rest
          else none
      | '<' :: '?' :: rest => do
          let rest ← skipInstruction rest
          readContent fuel level { st with joins := false } rest
      | '<' :: '/' :: rest => do
          let (name, rest) ← QualifiedName.read rest
          match skipSpaces rest with
          | '>' :: rest => do
              let st ← st.closeElement name
              match level with
              | 0 => some (st, rest)
              | level + 1 => readContent fuel level st rest
          | _ => none
      | '<' :: rest => do
          let (name, rest) ← QualifiedName.read rest
          let (raw, ending, rest) ← readAttributes rest.length.succ rest
          let (nesting, attributes) ← normalizeAttributes st.entities fuel st.nesting raw
          let st ← { st with nesting }.addStartTag name attributes ending
          match ending with
          | .opening => readContent fuel (level + 1) st rest
          | .empty | .broken => readContent fuel level st rest
      | _ => do
          let text := cs.takeWhile (· != '<')
          if isLegalText text then do
            let st ← readText fuel st [] false text
            readContent fuel level st (cs.dropWhile (· != '<'))
          else none

/-- Read text, onto what was read of it before (backwards).  References to characters
stand as they are, and so does the character behind one; what an entity holds is read
as content. -/
def readText : Nat → State → List Char → Bool → List Char → Option State
  | 0, _, _, _, _ => none
  | fuel + 1, st, acc, asIs, cs =>
      match cs with
      | [] => some (if acc.isEmpty then st else st.addText acc.reverse)
      | '&' :: rest => do
          match ← readReference rest with
          | (.char c, rest) =>
              if 0 < st.nesting.depth then
                readText fuel st (pushText acc c rest.isEmpty) asIs rest
              else readText fuel st (c :: acc) true rest
          | (.entity name, rest) => do
              let value ← st.entities.find? name
              let st := if acc.isEmpty then st else st.addText acc.reverse
              let nesting ← st.nesting.enter
              let (inner, _) ← readContent fuel 0 { st with nesting, started := false } value
              let st := { inner with nesting := inner.nesting.leave, started := st.started }
              readText fuel st [] false rest
      | c :: rest =>
          let acc := if asIs then c :: acc else pushText acc c rest.isEmpty
          readText fuel st acc false rest

end

/-! ## The prolog -/

/-- Comments and instructions between the parts of a document. -/
def skipMisc : Nat → List Char → Option (List Char)
  | 0, _ => none
  | fuel + 1, cs =>
      match skipSpaces cs with
      | '<' :: '!' :: '-' :: '-' :: rest => (skipComment rest).bind (skipMisc fuel)
      | '<' :: '?' :: rest => (skipInstruction rest).bind (skipMisc fuel)
      | rest => some rest

/-- A pseudo attribute of the XML declaration. -/
def skipPseudo (cs : List Char) : Option (List Char) := do
  let (_, rest) ← QualifiedName.read cs
  match skipSpaces rest with
  | '=' :: rest => do
      let (quote, rest) ← readQuote (skipSpaces rest)
      let (value, rest) ← readQuoted quote rest
      if value.all (fun c => isXmlChar c && c != '<') then return rest else none
  | _ => none

/-- Spaces between pseudo attributes; they may be missing only before the end. -/
def pseudoSpaces (cs : List Char) : Option (List Char) :=
  if (needSpaces cs).isSome || (afterWord "?>".toList cs).isSome then some (skipSpaces cs)
  else none

/-- The XML declaration behind its opening mark. -/
def skipDeclaration (cs : List Char) : Option (List Char) := do
  let cs ← pseudoSpaces cs
  let _ ← afterWord "version".toList cs
  let cs ← (skipPseudo cs).bind pseudoSpaces
  let cs ← if (afterWord "encoding".toList cs).isSome then (skipPseudo cs).bind pseudoSpaces
    else some cs
  let cs ← if (afterWord "standalone".toList cs).isSome then skipPseudo cs else some cs
  afterWord "?>".toList (skipSpaces cs)

/-- A quoted literal that is not looked into. -/
def skipLiteral (cs : List Char) : Option (List Char) := do
  let (quote, rest) ← readQuote cs
  let (_, rest) ← readQuoted quote rest
  return rest

/-- The identifier of something outside the document, if there is one. -/
def skipExternal (cs : List Char) : Option (Bool × List Char) :=
  match afterWord "SYSTEM".toList cs with
  | some rest => do
      let rest ← (needSpaces rest).bind skipLiteral
      return (true, rest)
  | none =>
      match afterWord "PUBLIC".toList cs with
      | some rest => do
          let rest ← (needSpaces rest).bind skipLiteral
          let rest ← (needSpaces rest).bind skipLiteral
          return (true, rest)
      | none => some (false, cs)

/-- The value of an entity declaration, if it has one in the document, and what follows
it. -/
def readEntityValue (general : Bool) (cs : List Char) :
    Option (Option (List Char) × List Char) :=
  match cs with
  | [] => none
  | c :: _ =>
      if c = '"' ∨ c = '\'' then do
        let (quote, rest) ← readQuote cs
        let (value, rest) ← readQuoted quote rest
        return (some value, rest)
      else do
        let (found, rest) ← skipExternal cs
        if !found then none
        else if general then
          match afterWord "NDATA".toList (skipSpaces rest) with
          | some rest => do
              let rest ← needSpaces rest
              let (_, rest) ← readName rest
              return (none, rest)
          | none => return (none, skipSpaces rest)
        else return (none, rest)

/-- An entity declaration behind its opening mark. -/
def readEntity (entities : Entities) (cs : List Char) : Option (Entities × List Char) := do
  let cs ← needSpaces cs
  let (general, cs) ← match cs with
    | '%' :: rest => (needSpaces rest).map fun rest => (false, rest)
    | _ => some (true, cs)
  let (name, rest) ← readName cs
  let rest ← needSpaces rest
  let (value, rest) ← readEntityValue general rest
  match skipSpaces rest with
  | '>' :: rest =>
      return (match value with
        | some value => entities ++ [(name, value)]
        | none => entities, rest)
  | _ => none

/-- A declaration of elements, attributes or notations, up to its end. -/
def skipMarkupDeclaration (cs : List Char) : Option (List Char) :=
  if ["<!ELEMENT", "<!ATTLIST", "<!NOTATION"].any
      (fun word => (afterWord word.toList cs).isSome) then
    match cs.dropWhile (· != '>') with
    | [] => none
    | _ :: rest => some rest
  else none

/-- The declarations of a document type, up to its end. -/
def readSubset : Nat → Entities → List Char → Option (Entities × List Char)
  | 0, _, _ => none
  | fuel + 1, entities, cs =>
      match skipSpaces cs with
      | [] => if cs.isEmpty then some (entities, []) else none
      | ']' :: rest =>
          match skipSpaces rest with
          | '>' :: rest => some (entities, rest)
          | _ => none
      | cs =>
          match afterWord "<!ENTITY".toList cs with
          | some rest => do
              let (entities, rest) ← readEntity entities rest
              readSubset fuel entities rest
          | none =>
              match afterWord "<!--".toList cs with
              | some rest => do
                  let rest ← skipComment rest
                  readSubset fuel entities rest
              | none =>
                  match afterWord "<?".toList cs with
                  | some rest => do
                      let rest ← skipInstruction rest
                      readSubset fuel entities rest
                  | none => do
                      let rest ← skipMarkupDeclaration cs
                      readSubset fuel entities rest

/-- A document type behind its opening mark. -/
def readDoctype (cs : List Char) : Option (Entities × List Char) := do
  let cs ← needSpaces cs
  let (_, cs) ← readName cs
  let (_, cs) ← skipExternal (skipSpaces cs)
  match skipSpaces cs with
  | '>' :: rest => return ([], rest)
  | '[' :: rest => readSubset (rest.length + 1) [] rest
  | _ => none

/-! ## Documents -/

/-- The document type, if there is one, and what surrounds it. -/
def readProlog (cs : List Char) : Option (Entities × List Char) := do
  let cs ← match afterWord "<?xml ".toList cs with
    | some rest => skipDeclaration (' ' :: rest)
    | none => some cs
  let cs ← skipMisc (cs.length + 1) cs
  match afterWord "<!DOCTYPE".toList cs with
  | some rest => do
      let (entities, rest) ← readDoctype rest
      let rest ← skipMisc (rest.length + 1) rest
      return (entities, rest)
  | none => return ([], cs)

/-- Read the outermost element, with `fuel` for its content. -/
def readRoot (fuel : Nat) (entities : Entities) : List Char → Option (Tree × List Char)
  | '<' :: rest => do
      let st := { State.start with entities }
      let (name, rest) ← QualifiedName.read rest
      let (raw, ending, rest) ← readAttributes rest.length.succ rest
      let (nesting, attributes) ← normalizeAttributes entities fuel st.nesting raw
      let st ← { st with nesting }.addStartTag name attributes ending
      let (st, rest) ← match ending with
        | .opening => readContent fuel 0 st rest
        | .empty | .broken => some (st, rest)
      match st.stack, st.root with
      | [], some t => return (t, rest)
      | _, _ => none
  | _ => none

/-- Read a document: the tree of its outermost element. -/
def Tree.read (cs : List Char) : Option Tree := do
  let cs := match cs with
    | c :: rest => if c.toNat = 0xFEFF then rest else cs
    | [] => []
  let fuel := 12 * (cs.length + 2)
  let (entities, rest) ← readProlog cs
  let (t, rest) ← readRoot fuel entities rest
  let rest ← skipMisc (rest.length + 1) rest
  if rest.isEmpty then return t else none

end Infographic.Markup
