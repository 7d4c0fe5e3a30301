/-
# Infographic.Directive.OptionList -- option lists

An option list is a comma-separated list of `key:value` and `key`.  A key without a
value is switched on; `true` and `false` are switches, digits with an optional sign
and point are a number, anything else is text.  A key written twice keeps its last
value.

A list has a written form, the JSON object with the same fields.  Faults are placed
by their byte column in it: a second value for a key, and a number that is too large.
-/
import Infographic.Json.Value
import Infographic.Number.Numeral
import Infographic.Text.Cut

namespace Infographic.Directive

set_option autoImplicit false

open Infographic.Number (isDigit plain readCell plainText)

/-! ## Option values -/

/-- The value of an option. -/
inductive OptionValue where
  | switch (on : Bool)
  | number (x : Float)
  | text (s : String)

namespace OptionValue

/-- A switch that is on, a number other than zero, a text that is not empty. -/
def isTruthy : OptionValue → Bool
  | .switch on => on
  | .number x => x != 0.0 && !x.isNaN
  | .text s => !s.isEmpty

def toNumber : OptionValue → Float
  | .switch on => if on then 1.0 else 0.0
  | .number x => x
  | .text s => readCell s.toList

/-- The text of a value, as it is used for names. -/
def toText : OptionValue → String
  | .switch on => if on then "true" else "false"
  | .number x => plainText x
  | .text s => s

end OptionValue

/-! ## Options -/

/-- Options by key, each key once. -/
abbrev Options := List (String × OptionValue)

namespace Options

/-- The value under a key. -/
def find? (opts : Options) (key : String) : Option OptionValue :=
  (List.find? (fun entry => entry.1 == key) opts).map Prod.snd

/-- Give a key a value, in place of the one it has. -/
def set (opts : Options) (key : String) (value : OptionValue) : Options :=
  match opts with
  | [] => [(key, value)]
  | entry :: rest =>
      if entry.1 = key then (key, value) :: rest else entry :: set rest key value

/-- The first of some keys that is present. -/
def firstKey? (opts : Options) (keys : List String) : Option String :=
  keys.find? fun key => (opts.find? key).isSome

/-- The value of the first of some keys that is present. -/
def first? (opts : Options) (keys : List String) : Option OptionValue :=
  (opts.firstKey? keys).bind opts.find?

/-- Whether the first of some keys that is present holds a truthy value. -/
def isOn (opts : Options) (keys : List String) : Bool :=
  ((opts.first? keys).map OptionValue.isTruthy).getD false

end Options

/-! ## Tokens -/

/-- Digits with an optional sign and an optional point that has digits behind it. -/
def isNumberToken (cs : List Char) : Bool :=
  let unsigned := (Number.Literal.readSign cs).2
  match unsigned.dropWhile isDigit with
  | [] => !unsigned.isEmpty
  | '.' :: rest => !rest.isEmpty && rest.all isDigit
  | _ => false

/-- A value token: its written form and what the written form is read as.  A number
that is too large for a float is read as nothing. -/
inductive Token where
  | switch (on : Bool)
  | number (x : Float)
  | text (cs : List Char)

namespace Token

def ofSegment (segment : List Char) : Token :=
  let cs := Text.trim segment
  if cs = "true".toList then .switch true
  else if cs = "false".toList then .switch false
  else if isNumberToken cs then .number (readCell cs)
  else .text cs

def written : Token → List Char
  | .switch on => (if on then "true" else "false").toList
  | .number x => plain x
  | .text cs => Json.quote cs

end Token

/-! ## Lists -/

/-- What is wrong with an option list, and at which byte column of its written form. -/
inductive OptionFault where
  /-- A second value for one key. -/
  | secondValue (column : Nat)
  /-- A number that is infinite. -/
  | infinite (negative : Bool) (column : Nat)
  /-- A number that is finite but whose written form is read as too large. -/
  | outOfRange (column : Nat)

/-- Read a value token whose written form begins behind `offset` bytes. -/
def OptionValue.ofToken (offset : Nat) : Token → Except OptionFault OptionValue
  | .switch on => .ok (.switch on)
  | .text cs => .ok (.text (String.ofList cs))
  | .number x =>
      if x.isInf then
        .error (.infinite (x < 0.0) (offset + if x < 0.0 then 2 else 1))
      else
        match (Json.Lexeme.read (plain x)).bind fun l => l.1.value.toFloat? with
        | some y => .ok (.number y)
        | none => .error (.outOfRange (offset + (plain x).length))

/-- A segment of an option list: its key and the tokens behind its colons. -/
structure Segment where
  key : List Char
  values : List (List Char)

def Segment.ofText (cs : List Char) : Segment :=
  match Text.splitAt ':' cs with
  | [] => ⟨[], []⟩
  | key :: values => ⟨Text.trim key, values⟩

/-- The segments of an option list that are not blank. -/
def segments (list : List Char) : List Segment :=
  ((Text.splitAt ',' list).filter fun cs => !(Text.trim cs).isEmpty).map Segment.ofText

/-- The option a segment stands for, and the width of its written form.  The written
form begins behind `offset` bytes. -/
def Segment.read (offset : Nat) (s : Segment) :
    Except OptionFault (OptionValue × Nat) := do
  let start := Json.byteWidth (Json.quote s.key) + 1
  match s.values with
  | [] => return (.switch true, start + 4)
  | first :: others =>
      let token := Token.ofSegment first
      let value ← OptionValue.ofToken (offset + start) token
      let width := start + Json.byteWidth token.written
      match others with
      | [] => return (value, width)
      | _ :: _ => throw (.secondValue (offset + width + 1))

/-- Read segments one after the other, the first behind `offset` bytes. -/
def readSegments : Nat → List Segment → Options → Except OptionFault Options
  | _, [], opts => .ok opts
  | offset, s :: rest, opts => do
      let (value, width) ← s.read offset
      readSegments (offset + width + 1) rest (opts.set (String.ofList s.key) value)

/-- Read an option list. -/
def Options.ofText (list : List Char) : Except OptionFault Options :=
  readSegments 1 (segments list) []

/-- The description of a fault. -/
def OptionFault.message : OptionFault → String
  | .secondValue column => "expected `,` or `\x7d` at line 1 column " ++ toString column
  | .infinite false column => "expected value at line 1 column " ++ toString column
  | .infinite true column => "invalid number at line 1 column " ++ toString column
  | .outOfRange column => "number out of range at line 1 column " ++ toString column

end Infographic.Directive
