import Stencil.Decimal.Binary

/-!
# The shortest decimal of a binary number

Of all decimals that round to a given binary number, `FiniteBinary.shortest` is the one with the
fewest digits, and of these the nearest; of two that are equally near, the one whose last digit
is even.

The search goes over grids. The grid at `place` holds the multiples of `10 ^ place`, and among
them only the two around the number can be the wanted one: if any multiple rounds to the number,
so does one of these two. Grids are tried from the coarsest one that can hold a hit to finer ones;
17 significant digits always suffice for 64 bits, and the last grid tried has one more.

All comparisons are made in natural numbers, after numerators are brought to the common
denominator of the number and the grid.
-/

namespace Stencil

/-- The number `digits · 10 ^ place`. -/
structure Decimal where
  digits : Nat
  place : Int
deriving DecidableEq, Repr

/-- The value of a number and the ends of the interval that rounds to it, counted in steps of a
grid and given as numerators over one denominator. -/
structure FiniteBinary.Scaled where
  low : Nat
  value : Nat
  high : Nat
  denominator : Nat
  /-- Whether the ends of the interval round to the number too. -/
  closed : Bool

namespace FiniteBinary

/-- The number and its interval on the grid at `place`. A quarter of the last binary place is the
unit in which both ends are whole. -/
def onGrid (x : FiniteBinary) (place : Int) : Scaled :=
  let up := Nat.pow 2 (x.exponent - 2).toNat * Nat.pow 10 (-place).toNat
  let down := Nat.pow 2 (2 - x.exponent).toNat * Nat.pow 10 place.toNat
  { low := (4 * x.significand - if x.nearBelow then 1 else 2) * up
    value := 4 * x.significand * up
    high := (4 * x.significand + 2) * up
    denominator := down
    closed := x.significand % 2 == 0 }

/-- Whether a multiple of the grid's step rounds to the number. -/
def Scaled.holds (s : Scaled) (n : Nat) : Bool :=
  let point := n * s.denominator
  if s.closed then s.low ≤ point && point ≤ s.high else s.low < point && point < s.high

/-- The multiple of the grid's step that rounds to the number and is nearest to it. -/
def Scaled.hit? (s : Scaled) : Option Nat :=
  let below := s.value / s.denominator
  let above := below + 1
  match s.holds below && below != 0, s.holds above with
  | false, false => none
  | true, false => some below
  | false, true => some above
  | true, true =>
    let toBelow := s.value - below * s.denominator
    let toAbove := above * s.denominator - s.value
    if toBelow < toAbove then some below
    else if toAbove < toBelow then some above
    else if below % 2 = 0 then some below else some above

/-- The power of ten of the leading digit of a number other than zero. -/
def leadingPlace (x : FiniteBinary) : Int :=
  let s := x.onGrid 0
  if s.denominator ≤ s.value then (Nat.toDigits 10 (s.value / s.denominator)).length - 1
  else -(Nat.toDigits 10 ((s.denominator - 1) / s.value)).length

/-- The first hit on the grids from `place` downwards. -/
def firstHit (x : FiniteBinary) : Nat → Int → Decimal
  | 0, place => ⟨(x.onGrid place).value / (x.onGrid place).denominator, place⟩
  | tries + 1, place =>
    match (x.onGrid place).hit? with
    | some digits => ⟨digits, place⟩
    | none => firstHit x tries (place - 1)

/-- The fewest digits that read back as the number; zero is the digit zero. The sign is not
part of it. -/
def shortest (x : FiniteBinary) : Decimal :=
  if x.significand = 0 then ⟨0, 0⟩ else x.firstHit 18 (x.leadingPlace + 1)

end FiniteBinary

end Stencil
