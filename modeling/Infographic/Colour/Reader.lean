/-
# Infographic.Colour.Reader -- reading colours

A colour is written as hexadecimal digits, as red, green and blue, as hue, saturation
and lightness, or by its name; `none` paints nothing.  Letter case and spaces around
it do not count.  A reference to a gradient is no colour.
-/
import Infographic.Attribute.Number
import Infographic.Colour.Names

namespace Infographic.Colour

set_option autoImplicit false

open Attribute (number? listNumber? listInteger? listRatio? skipSpaces skipSeparator expect
  takeWord)

/-! ## Hexadecimal digits -/

def hexDigit? (c : Char) : Option Nat :=
  if '0' ≤ c ∧ c ≤ '9' then some (c.toNat - '0'.toNat)
  else if 'a' ≤ c ∧ c ≤ 'f' then some (c.toNat - 'a'.toNat + 10)
  else none

/-- A colour from digits: one or two for a channel, opacity optional. -/
def ofHexDigits : List Nat → Option Colour
  | [r, g, b] => some (opaqueOf (twice r) (twice g) (twice b))
  | [r, g, b, a] => some ⟨twice r, twice g, twice b, twice a⟩
  | [r, r', g, g', b, b'] => some (opaqueOf (byte r r') (byte g g') (byte b b'))
  | [r, r', g, g', b, b', a, a'] => some ⟨byte r r', byte g g', byte b b', byte a a'⟩
  | _ => none
where
  byte (high low : Nat) : UInt8 := UInt8.ofNat (16 * high + low)
  twice (d : Nat) : UInt8 := byte d d

def takeHex (cs : List Char) : Option (Colour × List Char) :=
  let isHex (c : Char) := (hexDigit? c).isSome
  (ofHexDigits ((cs.takeWhile isHex).filterMap hexDigit?)).map fun colour =>
    (colour, cs.dropWhile isHex)

/-! ## Channels in brackets -/

/-- A channel from its part of one. -/
def byteOfRatio (x : Float) : UInt8 :=
  byteBelow (Number.round (x * 255.0))

def byteOfInt (n : Int) : UInt8 :=
  UInt8.ofNat (min n.toNat 255)

/-- Red, green and blue.  When red is a percentage the others are parts of one or
percentages, otherwise they are integers. -/
def takeChannels (cs : List Char) : Option (Colour × List Char) := do
  let (red, rest) ← number? cs
  match rest with
  | '%' :: rest =>
      let (green, rest) ← listRatio? (skipSeparator rest)
      let (blue, rest) ← listRatio? rest
      some (opaqueOf (byteOfRatio (red / 100.0)) (byteOfRatio green) (byteOfRatio blue), rest)
  | rest =>
      let (green, rest) ← listInteger? (skipSeparator rest)
      let (blue, rest) ← listInteger? rest
      some (opaqueOf (byteBelow red) (byteOfInt green) (byteOfInt blue), rest)

/-- Hue, saturation and lightness. -/
def takeHue (cs : List Char) : Option (Colour × List Char) := do
  let (hue, rest) ← listInteger? cs
  let (saturation, rest) ← listRatio? rest
  let (lightness, rest) ← listRatio? rest
  let part (x : Float) := Number.clamp 0.0 1.0 x
  some (ofHue (hue % 360).toNat (part saturation) (part lightness), rest)

/-- Channels in brackets, with an optional opacity behind them. -/
def takeBracketed (channels : List Char → Option (Colour × List Char)) (cs : List Char) :
    Option (Colour × List Char) := do
  let (colour, rest) ← channels (← expect '(' cs)
  match skipSpaces rest with
  | ')' :: rest => some (colour, rest)
  | rest =>
      let (alpha, rest) ← listNumber? rest
      let rest ← expect ')' (skipSpaces rest)
      let alpha := byteBelow (Number.clamp 0.0 1.0 alpha * 255.0)
      some (⟨colour.red, colour.green, colour.blue, alpha⟩, rest)

/-! ## Colours -/

/-- Take a colour in lower case. -/
def take (cs : List Char) : Option (Colour × List Char) :=
  match skipSpaces cs with
  | '#' :: rest => takeHex rest
  | cs =>
      let (word, rest) := takeWord cs
      match word with
      | "rgb" | "rgba" => takeBracketed takeChannels rest
      | "hsl" | "hsla" => takeBracketed takeHue rest
      | name => (ofName? name).map fun colour => (colour, rest)

/-- Read a colour. -/
def ofText? (s : String) : Option Colour :=
  let cs := (Text.trim s.toList).map Char.toLower
  if cs = "none".toList then some clear
  else
    match take cs with
    | some (colour, rest) => if (skipSpaces rest).isEmpty then some colour else none
    | none => none

end Infographic.Colour
