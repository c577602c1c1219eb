/-!
# Decimal literals

A **literal** is a number as it is written: a sign, digits, perhaps a point with digits behind it,
perhaps a power of ten. `Literal.ofChars?` takes a text apart and decides nothing about its value;
how strict a format is about the parts is for the format to say.

`Literal.toFloat` and `Literal.toFloat32` are the nearest numbers of 64 and of 32 bits.
-/

namespace Stencil

/-- The sign in front of a literal. -/
inductive LiteralSign where
  | plus
  | minus
deriving DecidableEq, Repr

/-- The parts of a written number. -/
structure Literal where
  sign : Option LiteralSign
  /-- The digits before the point. -/
  whole : List Char
  /-- The digits behind the point, if there is a point. -/
  fraction : Option (List Char)
  /-- The power of ten, if one is written. -/
  exponent : Option Int
deriving DecidableEq, Repr

namespace Literal

/-- Splits a sign off the front. -/
def splitSign : List Char → Option LiteralSign × List Char
  | '+' :: rest => (some .plus, rest)
  | '-' :: rest => (some .minus, rest)
  | cs => (none, cs)

/-- The value of a decimal digit. -/
def digitValue (c : Char) : Nat :=
  c.toNat - '0'.toNat

/-- The number that a run of digits stands for. -/
def digitsValue (digits : List Char) : Nat :=
  digits.foldl (fun n c => 10 * n + digitValue c) 0

/-- A power of ten as it is written behind its mark: an optional sign and at least one digit. -/
def exponentOfChars? (cs : List Char) : Option Int :=
  let (sign, digits) := splitSign cs
  if digits.isEmpty || !digits.all Char.isDigit then none
  else if sign = some .minus then some (-digitsValue digits)
  else some (digitsValue digits)

/-- Takes a written number apart. A digit has to stand before or behind the point. -/
def ofChars? (cs : List Char) : Option Literal :=
  let (sign, cs) := splitSign cs
  let whole := cs.takeWhile Char.isDigit
  let (fraction, cs) := match cs.dropWhile Char.isDigit with
    | '.' :: rest => (some (rest.takeWhile Char.isDigit), rest.dropWhile Char.isDigit)
    | rest => (none, rest)
  if whole.isEmpty && (fraction.getD []).isEmpty then none
  else match cs with
    | [] => some { sign, whole, fraction, exponent := none }
    | c :: rest =>
      if c = 'e' ∨ c = 'E' then
        (exponentOfChars? rest).map fun exponent =>
          { sign, whole, fraction, exponent := some exponent }
      else none

/-- Whether the literal stands for a negative number or a negative zero. -/
def negative (l : Literal) : Bool :=
  l.sign == some .minus

/-- The digits of the literal as one whole number. -/
def significand (l : Literal) : Nat :=
  digitsValue (l.whole ++ l.fraction.getD [])

/-- The power of ten that goes with `significand`. -/
def place (l : Literal) : Int :=
  l.exponent.getD 0 - (l.fraction.getD []).length

/-- The nearest number of 64 bits. -/
def toFloat (l : Literal) : Float :=
  let magnitude := Float.ofScientific l.significand (l.place < 0) l.place.natAbs
  if l.negative then -magnitude else magnitude

/-- The nearest number of 32 bits. -/
def toFloat32 (l : Literal) : Float32 :=
  let magnitude := Float32.ofScientific l.significand (l.place < 0) l.place.natAbs
  if l.negative then -magnitude else magnitude

end Literal

example : (Literal.ofChars? "-12.50e+3".toList).map (fun l => (l.negative, l.significand, l.place))
    = some (true, 1250, 1) := by decide

end Stencil
