import Stencil.Decimal.Shortest

/-!
# How a binary number is written

The digits of a number are its shortest decimal; a `Layout` says how they are set. Numbers whose
leading digit is neither too small nor too large are written **positionally**, with the point at
its place. The others are written **scientifically**: the point behind the leading digit, then
an exponent.

Numbers in JSON texts are set by `doubleLayout` or by `singleLayout`. The two differ only in the
range that is written positionally: it lies lower for numbers of 32 bits, which have fewer digits.
-/

namespace Stencil

/-- The choices left open by the digits of a number. -/
structure Layout where
  /-- The least power of ten of a leading digit that is written positionally. -/
  lowest : Int
  /-- The greatest power of ten of a leading digit that is written positionally. -/
  highest : Int
  /-- What follows a positional number without a fraction. -/
  wholeSuffix : String
  /-- What stands between the digits and an exponent that is not negative. -/
  positiveExponent : String
  /-- What stands between the digits and the size of a negative exponent. -/
  negativeExponent : String

namespace Layout

/-- Sets digits of which the first has the given power of ten. -/
def setDigits (l : Layout) (digits : List Char) (leading : Int) : String :=
  let zeros (n : Int) : List Char := List.replicate n.toNat '0'
  let split (n : Nat) : String :=
    String.ofList (digits.take n) ++ "." ++ String.ofList (digits.drop n)
  if l.lowest ≤ leading ∧ leading ≤ l.highest then
    if leading < 0 then "0." ++ String.ofList (zeros (-leading - 1) ++ digits)
    else if digits.length ≤ leading + 1 then
      String.ofList (digits ++ zeros (leading + 1 - digits.length)) ++ l.wholeSuffix
    else split (leading.toNat + 1)
  else
    let mantissa := if digits.length ≤ 1 then String.ofList digits else split 1
    mantissa ++ (if 0 ≤ leading then l.positiveExponent else l.negativeExponent)
      ++ toString leading.natAbs

/-- Writes a number. A negative zero keeps its sign. -/
def write (l : Layout) (x : FiniteBinary) : String :=
  let d := x.shortest
  let digits := Nat.toDigits 10 d.digits
  (if x.negative then "-" else "") ++ l.setDigits digits (d.place + digits.length - 1)

end Layout

/-- Numbers of 64 bits: positional from `0.00001` to sixteen digits before the point, always with a
fraction; an exponent always has a sign and no leading zeros. -/
def doubleLayout : Layout where
  lowest := -5
  highest := 15
  wholeSuffix := ".0"
  positiveExponent := "e+"
  negativeExponent := "e-"

/-- Numbers of 32 bits: positional from `0.000001` to thirteen digits before the point. -/
def singleLayout : Layout :=
  { doubleLayout with lowest := -6, highest := 12 }

end Stencil
