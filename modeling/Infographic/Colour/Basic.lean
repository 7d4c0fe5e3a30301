/-
# Infographic.Colour.Basic -- colours

A colour has four channels of one byte.  It is blended channel by channel, and
written as six hexadecimal digits when it is opaque.  It may be given by hue,
saturation and lightness.
-/
import Infographic.Number.Numeral

namespace Infographic

set_option autoImplicit false

/-- Red, green, blue and opacity. -/
structure Colour where
  red : UInt8
  green : UInt8
  blue : UInt8
  alpha : UInt8
  deriving Repr, DecidableEq

namespace Colour

def opaqueOf (red green blue : UInt8) : Colour :=
  ⟨red, green, blue, 255⟩

def black : Colour := opaqueOf 0 0 0

def clear : Colour := ⟨0, 0, 0, 0⟩

/-- The byte nearest to a number below it; what lies outside is cut off. -/
def byteBelow (x : Float) : UInt8 :=
  (Number.clamp 0.0 255.0 x).toUInt8

def channelValue (c : UInt8) : Float :=
  Float.ofNat c.toNat

/-- The channel a part of the way from one to another. -/
def blendChannel (t : Float) (a b : UInt8) : UInt8 :=
  byteBelow (Number.round (channelValue a + (channelValue b - channelValue a) * t))

/-- The colour a part of the way from one to another.  The part is at least nothing
and at most all of the way. -/
def blend (source target : Colour) (t : Float) : Colour :=
  let t := if t.isFinite then Number.clamp 0.0 1.0 t else 0.0
  let mix := blendChannel t
  ⟨mix source.red target.red, mix source.green target.green, mix source.blue target.blue,
    mix source.alpha target.alpha⟩

/-! ## Writing -/

/-- Two hexadecimal digits. -/
def hexByte (c : UInt8) : List Char :=
  [Nat.digitChar (c.toNat / 16), Nat.digitChar (c.toNat % 16)]

/-- Opacity as a part of one, in thousandths. -/
def opacity (c : Colour) : Float :=
  Number.round (channelValue c.alpha / 255.0 * 1000.0) / 1000.0

/-- The colour as style sheets write it. -/
def toCss (c : Colour) : String :=
  if c.alpha = 255 then
    String.ofList ('#' :: (hexByte c.red ++ hexByte c.green ++ hexByte c.blue))
  else
    "rgba(" ++ ", ".intercalate
      [toString c.red.toNat, toString c.green.toNat, toString c.blue.toNat,
        Number.plainText c.opacity] ++ ")"

/-! ## Hue, saturation and lightness

The hue circle has six parts, each between two of the colours red, yellow, green,
cyan, blue and magenta.  Channels are computed in single precision and cut off to
bytes. -/

open Infographic.Number (toSingle)

/-- A channel between a low and a high value, at a hue counted in parts of the circle
from where the channel starts to rise. -/
def hueChannel (low high hue : Float) : Float :=
  let hue := if hue < 0.0 then toSingle (hue + 6.0) else hue
  let hue := if 6.0 ≤ hue then toSingle (hue - 6.0) else hue
  let part (x : Float) := toSingle (toSingle (toSingle (high - low) * x) + low)
  if hue < 1.0 then part hue
  else if hue < 3.0 then high
  else if hue < 4.0 then part (toSingle (4.0 - hue))
  else low

/-- The opaque colour with a hue in degrees, and saturation and lightness as parts of
one. -/
def ofHue (degrees : Nat) (saturation lightness : Float) : Colour :=
  let hue := toSingle (Float.ofNat degrees / 60.0)
  let s := toSingle saturation
  let l := toSingle lightness
  let high :=
    if l ≤ 0.5 then toSingle (l * toSingle (s + 1.0))
    else toSingle (toSingle (l + s) - toSingle (l * s))
  let low := toSingle (toSingle (l * 2.0) - high)
  let channel (turn : Float) := byteBelow (toSingle (hueChannel low high turn * 255.0))
  opaqueOf (channel (toSingle (hue + 2.0))) (channel hue) (channel (toSingle (hue - 2.0)))

end Colour

end Infographic
