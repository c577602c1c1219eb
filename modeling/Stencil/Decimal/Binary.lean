/-!
# Binary floating-point numbers, exactly

A finite binary number is a sign, a whole significand and a power of two (`FiniteBinary`). A
`Format` says how such numbers, the infinities and what is not a number are packed into bits;
`Format.decode` unpacks them. From then on all arithmetic is exact.

The real numbers that round to a finite number form an interval around it. It reaches half way
to each neighbour, and the neighbour below is nearer at a power of two, where the exponent
changes (`FiniteBinary.nearBelow`).
-/

namespace Stencil

/-- The number `± significand · 2 ^ exponent`. -/
structure FiniteBinary where
  negative : Bool
  significand : Nat
  exponent : Int
  /-- Whether the next number below lies at half the distance of the next one above. -/
  nearBelow : Bool
deriving DecidableEq, Repr

/-- What a bit pattern stands for. -/
inductive Binary where
  | finite (x : FiniteBinary)
  | infinite (negative : Bool)
  | notANumber
deriving DecidableEq, Repr

/-- A layout of bits: from the left one sign bit, the exponent and the fraction. -/
structure Format where
  exponentBits : Nat
  fractionBits : Nat

namespace Format

/-- Numbers of 64 bits. -/
def double : Format := ⟨11, 52⟩

/-- Numbers of 32 bits. -/
def single : Format := ⟨8, 23⟩

/-- What is subtracted from the exponent field to give the power of two of the last fraction
bit. -/
def bias (f : Format) : Nat :=
  Nat.pow 2 (f.exponentBits - 1) - 1 + f.fractionBits

/-- Unpacks a bit pattern. Numbers with the least exponent have no hidden leading bit. -/
def decode (f : Format) (bits : Nat) : Binary :=
  let fraction := bits % Nat.pow 2 f.fractionBits
  let field := bits / Nat.pow 2 f.fractionBits % Nat.pow 2 f.exponentBits
  let negative := bits / Nat.pow 2 (f.fractionBits + f.exponentBits) % 2 == 1
  if field = Nat.pow 2 f.exponentBits - 1 then
    if fraction = 0 then .infinite negative else .notANumber
  else if field = 0 then
    .finite ⟨negative, fraction, 1 - f.bias, false⟩
  else
    let nearBelow := fraction == 0 && 1 < field
    .finite ⟨negative, Nat.pow 2 f.fractionBits + fraction, field - f.bias, nearBelow⟩

end Format

/-- The value of a number of 64 bits. -/
def Binary.ofFloat (x : Float) : Binary :=
  Format.double.decode x.toBits.toNat

/-- The value of a number of 32 bits. -/
def Binary.ofFloat32 (x : Float32) : Binary :=
  Format.single.decode x.toBits.toNat

/-- The number of 64 bits with this value, if it is one. -/
def FiniteBinary.toFloat (x : FiniteBinary) : Float :=
  let magnitude := (Float.ofNat x.significand).scaleB x.exponent
  if x.negative then -magnitude else magnitude

example : Binary.ofFloat 1.5 = .finite ⟨false, 3 * 2 ^ 51, -52, false⟩ := by decide +kernel

example : Binary.ofFloat 2.0 = .finite ⟨false, 2 ^ 52, -51, true⟩ := by decide +kernel

end Stencil
