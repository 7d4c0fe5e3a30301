/-
# Infographic.Path.Command -- path data

Path data is a list of commands: a letter and its numbers.  The letter may be left out
when it is that of the command before.  A capital letter gives places, a small one
steps from the place reached so far.  Data begins with a move, and is read up to its
first fault.
-/
import Infographic.Attribute.Number
import Infographic.Geometry.Point

namespace Infographic

set_option autoImplicit false

/-- One command of path data, with its points. -/
inductive PathCommand where
  | move (p : Point Float)
  | line (p : Point Float)
  | horizontal (x : Float)
  | vertical (y : Float)
  | cubic (c d p : Point Float)
  | smoothCubic (d p : Point Float)
  | quadratic (c p : Point Float)
  | smoothQuadratic (p : Point Float)
  | arc (radii : Point Float) (turn : Float) (large sweep : Bool) (p : Point Float)
  | close

namespace PathCommand

open Infographic.Number (isDigit)
open Attribute (takeNumbers skipSpaces)

/-! ## Numbers of a command -/

/-- Take a flag: one digit and one comma right behind it. -/
def takeFlag (cs : List Char) : Option (Bool × List Char) :=
  match skipSpaces cs with
  | c :: rest =>
      if c = '0' ∨ c = '1' then
        match rest with
        | ',' :: rest => some (c == '1', skipSpaces rest)
        | rest => some (c == '1', skipSpaces rest)
      else none
  | [] => none

/-- Take the numbers of an arc. -/
def takeArc (cs : List Char) : Option (PathCommand × List Char) := do
  let (shape, cs) ← takeNumbers 3 cs
  let (large, cs) ← takeFlag cs
  let (sweep, cs) ← takeFlag cs
  let (target, cs) ← takeNumbers 2 cs
  match shape, target with
  | [rx, ry, turn], [x, y] => some (.arc ⟨rx, ry⟩ turn large sweep ⟨x, y⟩, cs)
  | _, _ => none

/-- How many numbers a command has, by its small letter. -/
def numberCount : Char → Option Nat
  | 'm' | 'l' | 't' => some 2
  | 'h' | 'v' => some 1
  | 'c' => some 6
  | 's' | 'q' => some 4
  | 'z' => some 0
  | _ => none

/-- The command with a small letter and numbers. -/
def ofNumbers : Char → List Float → Option PathCommand
  | 'm', [x, y] => some (.move ⟨x, y⟩)
  | 'l', [x, y] => some (.line ⟨x, y⟩)
  | 'h', [x] => some (.horizontal x)
  | 'v', [y] => some (.vertical y)
  | 'c', [a, b, c, d, x, y] => some (.cubic ⟨a, b⟩ ⟨c, d⟩ ⟨x, y⟩)
  | 's', [c, d, x, y] => some (.smoothCubic ⟨c, d⟩ ⟨x, y⟩)
  | 'q', [a, b, x, y] => some (.quadratic ⟨a, b⟩ ⟨x, y⟩)
  | 't', [x, y] => some (.smoothQuadratic ⟨x, y⟩)
  | 'z', [] => some .close
  | _, _ => none

/-- Take the numbers of a command. -/
def takeBody (letter : Char) (cs : List Char) : Option (PathCommand × List Char) :=
  if letter = 'a' then takeArc cs
  else do
    let (xs, cs) ← takeNumbers (← numberCount letter) cs
    some (← ofNumbers letter xs, cs)

/-! ## Letters -/

def isLetter (c : Char) : Bool :=
  c == 'a' || c == 'A' || (numberCount c.toLower).isSome

def startsNumber (c : Char) : Bool :=
  isDigit c || c == '.' || c == '-' || c == '+'

/-- The letter of a command without one: that of the command before, except that a
line follows a move.  Nothing but a letter follows a closed run. -/
def repeated? : Char → Option Char
  | 'm' => some 'l'
  | 'M' => some 'L'
  | 'z' | 'Z' => none
  | c => some c

/-- The letter of the next command, and what follows it. -/
def takeLetter (previous : Option Char) : List Char → Option (Char × List Char)
  | [] => none
  | c :: rest =>
      match previous with
      | none => if c = 'm' ∨ c = 'M' then some (c, rest) else none
      | some before =>
          if isLetter c then some (c, rest)
          else if startsNumber c then (repeated? before).map fun letter => (letter, c :: rest)
          else none

/-- Take commands until there is none to take, with the word on whether each gives
steps. -/
def takeCommands : Nat → Option Char → List Char → List (Bool × PathCommand)
  | 0, _, _ => []
  | fuel + 1, previous, cs =>
      let taken := do
        let (letter, cs) ← takeLetter previous (skipSpaces cs)
        let (command, cs) ← takeBody letter.toLower cs
        some (letter, command, cs)
      match taken with
      | none => []
      | some (letter, command, cs) =>
          (letter.isLower, command) :: takeCommands fuel (some letter) cs

/-- The commands of path data up to its first fault, and whether each gives steps. -/
def read (s : String) : List (Bool × PathCommand) :=
  takeCommands (s.length + 1) none s.toList

end PathCommand

end Infographic
