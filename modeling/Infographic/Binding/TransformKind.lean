/-
# Infographic.Binding.TransformKind -- kinds of transforms

The transforms that a column can drive, the option keys that ask for them, and the piece
of a style each of them writes.
-/
import Infographic.Directive.OptionList
import Infographic.Geometry.Point

namespace Infographic

set_option autoImplicit false

/-- What a column can drive. -/
inductive TransformKind where
  | scale
  | scaleX
  | scaleY
  | rotate
  | position
  | positionX
  | positionY
  deriving Repr, DecidableEq

namespace TransformKind

/-- All kinds, in the order in which they are written. -/
def all : List TransformKind :=
  [.scale, .scaleX, .scaleY, .rotate, .position, .positionX, .positionY]

/-- The option keys that ask for a kind. -/
def keys : TransformKind → List String
  | .scale => ["scale", "s"]
  | .scaleX => ["scaleX", "sx"]
  | .scaleY => ["scaleY", "sy"]
  | .rotate => ["rotate", "r"]
  | .position => ["position", "p"]
  | .positionX => ["positionX", "px"]
  | .positionY => ["positionY", "py"]

def allKeys : List String := all.flatMap keys

def isPosition : TransformKind → Bool
  | .position | .positionX | .positionY => true
  | _ => false

/-- A style function and its arguments, with their unit behind each. -/
def call (function unit : String) (arguments : List Float) : String :=
  function ++ "(" ++ ",".intercalate (arguments.map fun x => Number.plainText x ++ unit) ++ ")"

/-- How far a rotation goes for the value one, in whole turns. -/
def rotateRatio (opts : Directive.Options) : Float :=
  let ratio := (opts.first? ["rotateRatio", "rr", "rotateLimit", "rl"]).map fun v => v.toNumber
  (ratio.filter Float.isFinite).getD 1.0

/-- What a kind writes for a value. -/
def fragment (kind : TransformKind) (t : Float) (opts : Directive.Options) : String :=
  match kind with
  | .scale => call "scale" "" [t, t]
  | .scaleX => call "scaleX" "" [t]
  | .scaleY => call "scaleY" "" [t]
  | .rotate => call "rotate" "deg" [t * 360.0 * rotateRatio opts]
  | .position => call "translate" "px" [t, t]
  | .positionX => call "translateX" "px" [t]
  | .positionY => call "translateY" "px" [t]

/-- What writes a move by a way. -/
def move (p : Point Float) : String :=
  call "translate" "px" [p.x, p.y]

/-- What a kind writes to follow a guide. -/
def offsetFragment (kind : TransformKind) (offset : Point Float) : String :=
  match kind with
  | .positionX => call "translateX" "px" [offset.x]
  | .positionY => call "translateY" "px" [offset.y]
  | _ => move offset

end TransformKind

end Infographic
