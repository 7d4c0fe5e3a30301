/-
# Infographic.Directive.Escape -- characters escaped by drawing tools

Drawing tools that allow only names as element ids write other characters by number,
as `_x7B_`.  `decode` puts the characters back.  An escape is an underscore, the
letter `x`, letters and digits, and an underscore; it is used up even where it names
no character, in which case it stays as it is.
-/
import Infographic.Text.Blank

namespace Infographic.Directive

set_option autoImplicit false

/-- ASCII letters and digits. -/
def isWordChar (c : Char) : Bool :=
  ('0' ≤ c && c ≤ '9') || ('a' ≤ c && c ≤ 'z') || ('A' ≤ c && c ≤ 'Z')

/-- The letters and digits of an escape at the very start of a text. -/
def escapeBody? : List Char → Option (List Char)
  | '_' :: 'x' :: rest =>
      let body := rest.takeWhile isWordChar
      match rest.dropWhile isWordChar with
      | '_' :: _ => if body.isEmpty then none else some body
      | _ => none
  | _ => none

/-- The value of a hexadecimal digit. -/
def hexDigit? (c : Char) : Option Nat :=
  if '0' ≤ c ∧ c ≤ '9' then some (c.toNat - '0'.toNat)
  else if 'a' ≤ c ∧ c ≤ 'f' then some (c.toNat - 'a'.toNat + 10)
  else if 'A' ≤ c ∧ c ≤ 'F' then some (c.toNat - 'A'.toNat + 10)
  else none

/-- The number a run of hexadecimal digits stands for. -/
def hexNumber? (cs : List Char) : Option Nat :=
  cs.foldl (fun n c => do return (← n) * 16 + (← hexDigit? c)) (some 0)

/-- The character an escape body names. -/
def escapedChar? (body : List Char) : Option Char :=
  match hexNumber? body with
  | some n => if n.isValidChar then some (Char.ofNat n) else none
  | none => none

/-- Decode a text, after passing over its first `skip` characters, the rest of an
escape already taken. -/
def decodeFrom : Nat → List Char → List Char
  | _, [] => []
  | skip + 1, _ :: rest => decodeFrom skip rest
  | 0, c :: rest =>
      match escapeBody? (c :: rest) with
      | some body =>
          match escapedChar? body with
          | some d => d :: decodeFrom (body.length + 2) rest
          | none => ('_' :: 'x' :: body) ++ '_' :: decodeFrom (body.length + 2) rest
      | none => c :: decodeFrom 0 rest

/-- Put escaped characters back. -/
def decode (cs : List Char) : List Char :=
  decodeFrom 0 cs

end Infographic.Directive
