/-
# Infographic.Markup.Name -- characters and names of XML

Which characters may stand in a document and in names, and how a qualified name is
read.
-/

namespace Infographic.Markup

set_option autoImplicit false

/-- The white space of XML. -/
def isSpace (c : Char) : Bool :=
  c == ' ' || c == '\t' || c == '\n' || c == '\r'

/-- Characters that may stand in a document. -/
def isXmlChar (c : Char) : Bool :=
  if c.toNat < 0x20 then c == '\t' || c == '\n' || c == '\r'
  else c.toNat != 0xFFFE && c.toNat != 0xFFFF

/-- Whether a code point lies in one of some ranges. -/
def inRanges (ranges : List (Nat × Nat)) (n : Nat) : Bool :=
  ranges.any fun r => r.1 ≤ n && n ≤ r.2

/-- The ranges of characters above ASCII with which a name may begin. -/
def nameStartRanges : List (Nat × Nat) :=
  [(0xC0, 0xD6), (0xD8, 0xF6), (0xF8, 0x2FF), (0x370, 0x37D), (0x37F, 0x1FFF),
    (0x200C, 0x200D), (0x2070, 0x218F), (0x2C00, 0x2FEF), (0x3001, 0xD7FF),
    (0xF900, 0xFDCF), (0xFDF0, 0xFFFD), (0x10000, 0xEFFFF)]

/-- The ranges of further characters above ASCII that may stand in a name. -/
def nameExtraRanges : List (Nat × Nat) :=
  [(0xB7, 0xB7), (0x300, 0x36F), (0x203F, 0x2040)]

/-- Characters with which a name may begin. -/
def isNameStart (c : Char) : Bool :=
  if c.toNat ≤ 128 then c.isAlpha || c == ':' || c == '_'
  else inRanges nameStartRanges c.toNat

/-- Characters that may stand in a name. -/
def isNameChar (c : Char) : Bool :=
  if c.toNat ≤ 128 then c.isAlphanum || c == ':' || c == '_' || c == '-' || c == '.'
  else inRanges nameStartRanges c.toNat || inRanges nameExtraRanges c.toNat

/-- A name at the start of a text, and what follows it. -/
def readName : List Char → Option (List Char × List Char)
  | [] => none
  | c :: rest =>
      if isNameStart c then some (c :: rest.takeWhile isNameChar, rest.dropWhile isNameChar)
      else none

/-- A name with an optional qualifier before a colon. -/
structure QualifiedName where
  qualifier : List Char
  localName : List Char
  deriving Repr, DecidableEq

/-- Whether a part of a qualified name begins as a name does. -/
def beginsName : List Char → Bool
  | [] => false
  | c :: _ => isNameStart c

/-- Read a run of name characters as a qualified name: at most one colon, behind it a
name, before it a name or nothing. -/
def QualifiedName.ofRun (run : List Char) : Option QualifiedName :=
  match run.dropWhile (· != ':') with
  | [] => if beginsName run then some ⟨[], run⟩ else none
  | _ :: localName =>
      let qualifier := run.takeWhile (· != ':')
      if localName.contains ':' || !beginsName localName then none
      else if !qualifier.isEmpty && !beginsName qualifier then none
      else some ⟨qualifier, localName⟩

/-- A qualified name at the start of a text, and what follows it. -/
def QualifiedName.read (cs : List Char) : Option (QualifiedName × List Char) :=
  (QualifiedName.ofRun (cs.takeWhile isNameChar)).map fun q => (q, cs.dropWhile isNameChar)

def skipSpaces (cs : List Char) : List Char :=
  cs.dropWhile isSpace

/-- At least one space, and what follows the spaces. -/
def needSpaces : List Char → Option (List Char)
  | [] => none
  | c :: rest => if isSpace c then some (skipSpaces rest) else none

/-- A quote mark, and what follows it. -/
def readQuote : List Char → Option (Char × List Char)
  | [] => none
  | c :: rest => if c = '"' ∨ c = '\'' then some (c, rest) else none

/-- The characters up to the closing quote, and what follows it. -/
def readQuoted (quote : Char) (cs : List Char) : Option (List Char × List Char) :=
  match cs.dropWhile (· != quote) with
  | [] => none
  | _ :: rest => some (cs.takeWhile (· != quote), rest)

end Infographic.Markup
