import Stencil.Decimal.Literal
import Stencil.Json.Basic

/-!
# Numbers in JSON texts

A literal is a JSON number when it has no plus sign, no leading zeros and a digit wherever one is
possible (`Literal.isJson`). `Number.ofLiteral?` gives its value.

* Without a point and without a power of ten it is a whole number, if it lies in the range of
  whole numbers. The literal `-0` is the binary number minus zero.
* Any other number is binary. Its digits are gathered into a significand of 64 bits for as long
  as they fit (`Significand`); a digit that does not fit, and the ones behind it, only count for
  their place. The significand is then scaled by the power of ten, each step with one rounding
  (`scale`). A number too large to be finite is refused, one too small is a zero.
-/

namespace Stencil

/-- Whether a literal is written as JSON asks for. -/
def Literal.isJson (l : Literal) : Bool :=
  l.sign != some .plus && !l.whole.isEmpty && l.fraction != some []
    && (l.whole.length == 1 || l.whole.head? != some '0')

/-- The leading digits of a number and the power of ten that goes with them. -/
structure Significand where
  digits : Nat := 0
  place : Int := 0
deriving DecidableEq, Repr

namespace Significand

/-- What a significand stays below. -/
def bound : Nat := Nat.pow 2 64

/-- Takes in the digits before the point. Those that do not fit raise the power of ten. -/
def addWhole (s : Significand) : List Char → Significand
  | [] => s
  | c :: rest =>
    let digits := 10 * s.digits + Literal.digitValue c
    if digits < bound then { s with digits }.addWhole rest
    else { s with place := s.place + (c :: rest).length }

/-- Takes in the digits behind the point. Those that fit lower the power of ten; the others are
dropped. -/
def addFraction (s : Significand) : List Char → Significand
  | [] => s
  | c :: rest =>
    let digits := 10 * s.digits + Literal.digitValue c
    if digits < bound then addFraction ⟨digits, s.place - 1⟩ rest
    else s

/-- The significand of a literal. -/
def ofLiteral (l : Literal) : Significand :=
  let s := (addWhole {} l.whole).addFraction (l.fraction.getD [])
  { s with place := s.place + l.exponent.getD 0 }

end Significand

/-- The greatest power of ten that is a number of 64 bits. -/
def greatestPower : Nat := 308

/-- A power of ten; infinite beyond the greatest one. -/
def powerOfTen (n : Nat) : Float :=
  Float.ofScientific 1 false n

/-- A number times a power of ten. A negative power beyond the greatest one is divided by in two
steps; two such steps leave nothing of a significand. -/
def scale (x : Float) (place : Int) : Float :=
  if 0 ≤ place then
    if x == 0.0 then x else x * powerOfTen place.toNat
  else if -place ≤ greatestPower then
    x / powerOfTen (-place).toNat
  else if -place ≤ 2 * greatestPower then
    x / powerOfTen greatestPower / powerOfTen ((-place).toNat - greatestPower)
  else 0.0

namespace Number

/-- The binary number of a literal, if it is finite. -/
def realOfLiteral? (l : Literal) : Option Number :=
  let s := Significand.ofLiteral l
  let magnitude := scale (Float.ofNat s.digits) s.place
  match Binary.ofFloat (if l.negative then -magnitude else magnitude) with
  | .finite x => some (real x)
  | .infinite _ | .notANumber => none

/-- The whole number of a literal without point and power of ten, unless that is minus zero or
out of range. -/
def wholeOfLiteral? (l : Literal) : Option Number :=
  if l.fraction.isSome || l.exponent.isSome || (l.negative && l.significand == 0) then none
  else
    let n : Int := if l.negative then -l.significand else l.significand
    if wholeInRange n then some (whole n) else none

/-- The value of a JSON number. -/
def ofLiteral? (l : Literal) : Option Number :=
  if l.isJson then (wholeOfLiteral? l).or (realOfLiteral? l) else none

end Number

end Stencil
