/-
# Infographic.Number.Dyadic -- a floating-point number as integer times power of two

`decode` reads a `Float` as not-a-number, an infinity, or a signed integer times
a power of two.  Everything that asks for the digits of a number or rounds it to
an integer works on that exact form in `Nat` arithmetic, and comes back to
`Float` only through integers below `2 ^ 53`, where no rounding happens.
-/

namespace Infographic.Number

set_option autoImplicit false

/-- The finite number `± mantissa * 2 ^ exponent`. -/
structure Dyadic where
  negative : Bool
  mantissa : Nat
  exponent : Int
  deriving Repr, DecidableEq

/-- What a `Float` stands for. -/
inductive Decoded where
  | nan
  | infinite (negative : Bool)
  | finite (value : Dyadic)
  deriving Repr, DecidableEq

/-- Read the sign, exponent and fraction fields of a `Float`. -/
def decode (x : Float) : Decoded :=
  let bits := x.toBits.toNat
  let negative := bits / Nat.pow 2 63 == 1
  let field : Nat := bits / Nat.pow 2 52 % Nat.pow 2 11
  let fraction : Nat := bits % Nat.pow 2 52
  if field = 2047 then
    if fraction = 0 then .infinite negative else .nan
  else if field = 0 then .finite ⟨negative, fraction, -1074⟩
  else .finite ⟨negative, Nat.pow 2 52 + fraction, (field : Int) - 1075⟩

/-- The sign bit. -/
def signBit (x : Float) : Bool :=
  x.toBits.toNat / Nat.pow 2 63 == 1

def nan : Float := 0.0 / 0.0
def infinity : Float := 1.0 / 0.0

/-- Half the length of the unit circle. -/
def pi : Float := 3.141592653589793

/-- Give a magnitude its sign; zero keeps it too. -/
def withSign (negative : Bool) (magnitude : Float) : Float :=
  if negative then -magnitude else magnitude

namespace Dyadic

/-- The magnitude as a fraction of two integers. -/
def numerator (d : Dyadic) : Nat :=
  d.mantissa * Nat.pow 2 d.exponent.toNat

def denominator (d : Dyadic) : Nat :=
  Nat.pow 2 (-d.exponent).toNat

end Dyadic

/-! ## Rounding to an integer -/

/-- How a number between two integers is rounded. -/
inductive Rounding where
  /-- Toward negative infinity. -/
  | down
  /-- Toward positive infinity. -/
  | up
  /-- Toward zero. -/
  | toZero
  /-- To the nearest integer, a half away from zero. -/
  | halfAway
  deriving Repr, DecidableEq

/-- Whether a magnitude `whole + rest / den` with `rest < den` rounds away from
zero, to `whole + 1`. -/
def Rounding.steps (mode : Rounding) (negative : Bool) (rest den : Nat) : Bool :=
  match mode with
  | .down => negative && rest != 0
  | .up => !negative && rest != 0
  | .toZero => false
  | .halfAway => den ≤ 2 * rest

/-- The integer magnitude a finite number rounds to. -/
def Dyadic.roundMagnitude (mode : Rounding) (d : Dyadic) : Nat :=
  let whole := d.numerator / d.denominator
  let rest := d.numerator % d.denominator
  if mode.steps d.negative rest d.denominator then whole + 1 else whole

/-- Round to an integer.  A number without fraction bits, an infinity and
not-a-number are their own rounding; a zero result keeps the sign. -/
def roundWith (mode : Rounding) (x : Float) : Float :=
  match decode x with
  | .finite d =>
      if 0 ≤ d.exponent then x
      else withSign d.negative (Float.ofNat (d.roundMagnitude mode))
  | _ => x

def floor (x : Float) : Float := roundWith .down x
def ceil (x : Float) : Float := roundWith .up x
def round (x : Float) : Float := roundWith .halfAway x

/-- A power of two as a `Float`; exact where one exists. -/
def twoPow (q : Int) : Float :=
  if -1022 ≤ q ∧ q ≤ 1023 then Float.ofBits (UInt64.ofNat ((q + 1023).toNat * Nat.pow 2 52))
  else if -1074 ≤ q ∧ q < -1022 then Float.ofBits (UInt64.ofNat (Nat.pow 2 (q + 1074).toNat))
  else if q < 0 then 0.0 else infinity

/-- The number `m * 2 ^ q`, for `m < 2 ^ 53` and a representable result. -/
def ofScaled (m : Nat) (q : Int) : Float :=
  Float.ofNat m * twoPow (q / 2) * twoPow (q - q / 2)

/-- The remainder of a division by a positive whole number, with the sign of the
dividend; exact.  Infinities have none. -/
def remainder (x : Float) (modulus : Nat) : Float :=
  match decode x with
  | .finite d =>
      let rest := d.numerator % (modulus * d.denominator)
      let shift := min d.exponent 0
      withSign d.negative (ofScaled rest shift)
  | _ => nan

/-- The remainder of a division of numbers, with the sign of the dividend; exact. -/
def remainderBy (x y : Float) : Float :=
  match decode x, decode y with
  | .finite d, .finite e =>
      let shift := min d.exponent e.exponent
      let scaled (z : Dyadic) := z.mantissa * Nat.pow 2 (z.exponent - shift).toNat
      if e.mantissa = 0 then nan
      else withSign d.negative (ofScaled (scaled d % scaled e) shift)
  | .finite _, .infinite _ => x
  | _, _ => nan

/-- The whole part of a positive number; zero for any other. -/
def toNat (x : Float) : Nat :=
  match decode x with
  | .finite d => if d.negative then 0 else d.numerator / d.denominator
  | _ => 0

/-! ## Integer powers -/

/-- Square-and-multiply: `acc * base ^ n`, the low bits of `n` first. -/
def powerFrom : Nat → Float → Float → Nat → Float
  | 0, acc, _, _ => acc
  | fuel + 1, acc, base, n =>
      let acc := if n % 2 = 1 then acc * base else acc
      if n / 2 = 0 then acc else powerFrom fuel acc (base * base) (n / 2)

/-- `base ^ n` by repeated squaring.  `n` halves at every step, so `n + 1` steps
suffice. -/
def power (base : Float) (n : Nat) : Float :=
  powerFrom (n + 1) 1.0 base n

/-- Restrict to `low .. high`; not-a-number stays. -/
def clamp (low high x : Float) : Float :=
  if x < low then low else if high < x then high else x

/-! ## Single precision

A number of single precision has 24 significant bits, the last one not below
`2 ^ -149`.  Arithmetic in single precision is arithmetic on `Float` with each result
rounded: a sum, difference, product or quotient of two such numbers has so many bits
to spare in a `Float` that rounding twice is rounding once. -/

/-- Divide by a power of two to the nearest integer, a half to the even one. -/
def shiftToEven (m shift : Nat) : Nat :=
  let whole := m / Nat.pow 2 shift
  let rest := 2 * (m % Nat.pow 2 shift)
  if rest < Nat.pow 2 shift then whole
  else if rest = Nat.pow 2 shift then whole + whole % 2
  else whole + 1

/-- How many of the low bits of a finite number single precision drops. -/
def Dyadic.surplus (d : Dyadic) : Nat :=
  max (Nat.log2 d.mantissa - 23) (-149 - d.exponent).toNat

/-- The nearest number of single precision, for a number in its range. -/
def toSingle (x : Float) : Float :=
  match decode x with
  | .finite d =>
      withSign d.negative (ofScaled (shiftToEven d.mantissa d.surplus) (d.exponent + d.surplus))
  | _ => x

end Infographic.Number
