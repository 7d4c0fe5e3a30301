/-
# Infographic.Geometry.Point -- points and affine maps

A matrix `[a c e; b d f; 0 0 1]` maps points.  Products of matrices map by the right
factor first.
-/
import Infographic.Number.Hypotenuse

namespace Infographic

set_option autoImplicit false

/-- A point, or the way from one point to another. -/
structure Point (α : Type) where
  x : α
  y : α
  deriving Repr

/-- The columns of an affine map: where it takes the two unit steps and the origin. -/
structure Matrix (α : Type) where
  a : α
  b : α
  c : α
  d : α
  e : α
  f : α
  deriving Repr

section

variable {α : Type} [Scalar α]

open Scalar (whole)

namespace Point

def origin : Point α := ⟨whole 0, whole 0⟩

instance : Add (Point α) := ⟨fun p q => ⟨p.x + q.x, p.y + q.y⟩⟩
instance : Sub (Point α) := ⟨fun p q => ⟨p.x - q.x, p.y - q.y⟩⟩
instance : Neg (Point α) := ⟨fun p => ⟨-p.x, -p.y⟩⟩

/-- Make a way longer. -/
@[inline] def scale (k : α) (p : Point α) : Point α := ⟨k * p.x, k * p.y⟩

/-- The point a part of the way from one to another. -/
@[inline] def towards (p q : Point α) (t : α) : Point α := p + scale t (q - p)

end Point

namespace Matrix

def identity : Matrix α := ⟨whole 1, whole 0, whole 0, whole 1, whole 0, whole 0⟩

def shift (p : Point α) : Matrix α := { identity with e := p.x, f := p.y }

def scaling (x y : α) : Matrix α := { identity with a := x, d := y }

/-- The image of a point. -/
def apply (m : Matrix α) (p : Point α) : Point α :=
  ⟨m.a * p.x + m.c * p.y + m.e, m.b * p.x + m.d * p.y + m.f⟩

/-- The map that does `n` and then `m`. -/
def mul (m n : Matrix α) : Matrix α :=
  { a := m.a * n.a + m.c * n.b
    b := m.b * n.a + m.d * n.b
    c := m.a * n.c + m.c * n.d
    d := m.b * n.c + m.d * n.d
    e := m.a * n.e + m.c * n.f + m.e
    f := m.b * n.e + m.d * n.f + m.f }

instance : Mul (Matrix α) := ⟨mul⟩

end Matrix

end

/-! ## Points and matrices of floats -/

instance : BEq (Point Float) := ⟨fun p q => p.x == q.x && p.y == q.y⟩

namespace Point

/-- The scalar product. -/
@[inline] def dot (p q : Point Float) : Float := p.x * q.x + p.y * q.y

/-- The length of a way. -/
@[inline] def norm (p : Point Float) : Float := Number.hypotenuse p.x p.y

end Point

namespace Matrix

def radians (degrees : Float) : Float :=
  degrees * (Number.pi / 180.0)

/-- A turn about the origin. -/
def rotation (degrees : Float) : Matrix Float :=
  let sin := (radians degrees).sin
  let cos := (radians degrees).cos
  ⟨cos, sin, -sin, cos, 0.0, 0.0⟩

def skewX (degrees : Float) : Matrix Float := { identity with c := (radians degrees).tan }

def skewY (degrees : Float) : Matrix Float := { identity with b := (radians degrees).tan }

def entries (m : Matrix Float) : List Float := [m.a, m.b, m.c, m.d, m.e, m.f]

def isIdentity (m : Matrix Float) : Bool :=
  m.entries == (identity : Matrix Float).entries

end Matrix

end Infographic
