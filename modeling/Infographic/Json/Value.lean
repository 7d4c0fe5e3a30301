/-
# Infographic.Json.Value -- JSON text

Texts are written in quotes, and message text is read by a strict reader.  Two faults do
not make a text unreadable by themselves, because they are harmless in a part of a message
that nobody asks for: a number out of range, and a string whose escapes hold half of a
surrogate pair.  Such a part is kept in the value as what it is, and refused where it is
asked for.
-/
import Infographic.Json.Number

namespace Infographic.Json

set_option autoImplicit false

/-- A JSON value.  A string that is no Unicode text is `none`. -/
inductive Value where
  | null
  | bool (b : Bool)
  | number (n : Numeric)
  | text (s : Option String)
  | list (items : List Value)
  | object (fields : List (Option String × Value))

/-- The characters JSON allows between tokens. -/
def isSpace (c : Char) : Bool :=
  c == ' ' || c == '\n' || c == '\t' || c == '\r'

def skipSpaces (cs : List Char) : List Char :=
  cs.dropWhile isSpace

/-! ## Strings -/

/-- One element of a string: a character, or a UTF-16 unit written by number. -/
inductive Unit16 where
  | char (c : Char)
  | unit (n : Nat)

/-- The value of a hexadecimal digit. -/
def hexValue? (c : Char) : Option Nat :=
  if '0' ≤ c ∧ c ≤ '9' then some (c.toNat - '0'.toNat)
  else if 'a' ≤ c ∧ c ≤ 'f' then some (c.toNat - 'a'.toNat + 10)
  else if 'A' ≤ c ∧ c ≤ 'F' then some (c.toNat - 'A'.toNat + 10)
  else none

/-- The character a one-letter escape stands for. -/
def escaped? (c : Char) : Option Char :=
  if c = '"' ∨ c = '\\' ∨ c = '/' then some c
  else if c = 'b' then some (Char.ofNat 0x08)
  else if c = 'f' then some (Char.ofNat 0x0C)
  else if c = 'n' then some '\n'
  else if c = 'r' then some '\r'
  else if c = 't' then some '\t'
  else none

/-- The elements of a string up to its closing quote, and what follows the quote. -/
def readUnits : List Char → Option (List Unit16 × List Char)
  | [] => none
  | '"' :: rest => some ([], rest)
  | '\\' :: 'u' :: a :: b :: c :: d :: rest => do
      let n := (← hexValue? a) * 4096 + (← hexValue? b) * 256 + (← hexValue? c) * 16 +
        (← hexValue? d)
      let (us, rest) ← readUnits rest
      return (.unit n :: us, rest)
  | '\\' :: e :: rest => do
      let c ← escaped? e
      let (us, rest) ← readUnits rest
      return (.char c :: us, rest)
  | c :: rest =>
      if c.toNat < 0x20 ∨ c = '\\' then none
      else do
        let (us, rest) ← readUnits rest
        return (.char c :: us, rest)

/-- Join surrogate pairs; `none` when a half stands alone. -/
def decodeUnits : List Unit16 → Option (List Char)
  | [] => some []
  | .char c :: rest => (decodeUnits rest).map (c :: ·)
  | .unit n :: rest =>
      if 0xD800 ≤ n ∧ n < 0xDC00 then
        match rest with
        | .unit m :: rest =>
            if 0xDC00 ≤ m ∧ m < 0xE000 then
              (decodeUnits rest).map
                (Char.ofNat (0x10000 + (n - 0xD800) * 0x400 + (m - 0xDC00)) :: ·)
            else none
        | _ => none
      else if 0xDC00 ≤ n ∧ n < 0xE000 then none
      else (decodeUnits rest).map (Char.ofNat n :: ·)

/-- A string behind its opening quote. -/
def readText (cs : List Char) : Option (Option String × List Char) :=
  (readUnits cs).map fun (us, rest) => ((decodeUnits us).map String.ofList, rest)

/-! ## Values -/

/-- The rest of a text that begins with `word`. -/
def expect (word : String) (v : Value) (cs : List Char) : Option (Value × List Char) :=
  if word.toList.isPrefixOf cs then some (v, cs.drop word.length) else none

mutual

/-- A value at the start of a text, and what follows it.  The fuel bounds the
nesting and the number of items together; the length of the text suffices. -/
def readValue : Nat → List Char → Option (Value × List Char)
  | 0, _ => none
  | fuel + 1, cs =>
      match skipSpaces cs with
      | [] => none
      | '"' :: rest => (readText rest).map fun (s, rest) => (.text s, rest)
      | '[' :: rest =>
          match skipSpaces rest with
          | ']' :: rest => some (.list [], rest)
          | rest => (readItems fuel rest).map fun (vs, rest) => (.list vs, rest)
      | '\x7b' :: rest =>
          match skipSpaces rest with
          | '\x7d' :: rest => some (.object [], rest)
          | rest => (readFields fuel rest).map fun (fs, rest) => (.object fs, rest)
      | 't' :: rest => expect "rue" (.bool true) rest
      | 'f' :: rest => expect "alse" (.bool false) rest
      | 'n' :: rest => expect "ull" .null rest
      | rest => (Lexeme.read rest).map fun (l, rest) => (.number l.value, rest)

/-- At least one item, up to the closing bracket. -/
def readItems : Nat → List Char → Option (List Value × List Char)
  | 0, _ => none
  | fuel + 1, cs => do
      let (v, rest) ← readValue fuel cs
      match skipSpaces rest with
      | ']' :: rest => some ([v], rest)
      | ',' :: rest => (readItems fuel rest).map fun (vs, rest) => (v :: vs, rest)
      | _ => none

/-- At least one field, up to the closing brace. -/
def readFields : Nat → List Char → Option (List (Option String × Value) × List Char)
  | 0, _ => none
  | fuel + 1, cs =>
      match skipSpaces cs with
      | '"' :: rest => do
          let (key, rest) ← readText rest
          match skipSpaces rest with
          | ':' :: rest => do
              let (v, rest) ← readValue fuel rest
              match skipSpaces rest with
              | '\x7d' :: rest => some ([(key, v)], rest)
              | ',' :: rest =>
                  (readFields fuel rest).map fun (fs, rest) => ((key, v) :: fs, rest)
              | _ => none
          | _ => none
      | _ => none

end

/-- A text that is one value and nothing else. -/
def read (s : String) : Option Value :=
  let cs := s.toList
  match readValue (cs.length + 1) cs with
  | some (v, rest) => if (skipSpaces rest).isEmpty then some v else none
  | none => none

/-! ## Records

A record is written as an object, where unknown fields are passed over and a known
field may stand only once, or as a list of its fields in order. -/

/-- The values of the fields `names`, in that order; `none` for a field that is not
written. -/
def Value.fields? (names : List String) : Value → Option (List (Option Value))
  | .object fields =>
      if fields.any (fun f => f.1.isNone) then none
      else
        let found := names.map fun name =>
          (fields.filter fun f => f.1 == some name).map Prod.snd
        if found.any (fun vs => 1 < vs.length) then none
        else some (found.map List.head?)
  | .list items =>
      if names.length < items.length then none
      else some (items.map some ++ List.replicate (names.length - items.length) none)
  | _ => none

/-- A field that may be left out. -/
def orElse {α : Type} (absent : α) (read : Value → Option α) : Option Value → Option α
  | some v => read v
  | none => some absent

/-- A field that must be there. -/
def required {α : Type} (read : Value → Option α) (field : Option Value) : Option α :=
  field.bind read

def Value.text? : Value → Option String
  | .text s => s
  | _ => none

/-- A whole number below `bound`. -/
def Value.natBelow? (bound : Nat) : Value → Option Nat
  | .number (.unsigned n) => if n < bound then some n else none
  | _ => none

def Value.list? : Value → Option (List Value)
  | .list items => some items
  | _ => none

/-- The value of an optional field: absent and `null` are the same. -/
def Value.optional? {α : Type} (read : Value → Option α) : Value → Option (Option α)
  | .null => some none
  | v => (read v).map some

/-! ## Quoted texts

In the quoted form of a text the quote and the backslash get a backslash, the five
control characters with a letter of their own use it, other control characters are
written by number, and everything else stands for itself. -/

/-- A hexadecimal digit in lower case. -/
def hexDigit (n : Nat) : Char :=
  if n < 10 then Char.ofNat ('0'.toNat + n) else Char.ofNat ('a'.toNat + (n - 10))

/-- One character inside quotes. -/
def quoteChar (c : Char) : List Char :=
  if c = '"' then ['\\', '"']
  else if c = '\\' then ['\\', '\\']
  else if c = '\n' then ['\\', 'n']
  else if c = '\r' then ['\\', 'r']
  else if c = '\t' then ['\\', 't']
  else if c.toNat = 0x08 then ['\\', 'b']
  else if c.toNat = 0x0C then ['\\', 'f']
  else if c.toNat < 0x20 then
    ['\\', 'u', '0', '0', hexDigit (c.toNat / 16), hexDigit (c.toNat % 16)]
  else [c]

/-- A string in quotes. -/
def quote (cs : List Char) : List Char :=
  '"' :: (cs.flatMap quoteChar ++ ['"'])

/-- The length of a text in UTF-8 bytes. -/
def byteWidth (cs : List Char) : Nat :=
  cs.foldl (fun n c => n + c.utf8Size) 0

end Infographic.Json
