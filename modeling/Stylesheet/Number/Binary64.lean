/-
# Binary64 numbers

A finite binary64 number is a sign and a whole number of *units* of 2⁻¹⁰⁷⁴, the
smallest positive one.  So two finite numbers are added, multiplied, divided
and compared as exact integers or quotients of integers, and one rounding
brings a result back to the binary64 grid: `Binary64.ofQuotient`.

A number of units is on the grid when it has at most 53 significant bits and
is below 2²⁰⁹⁸ units, that is 2¹⁰²⁴.  `gridStep` is the distance of the grid at
a magnitude and `roundToGrid` the nearest multiple of it, ties to the even one;
what lies at 2¹⁰²⁴ or beyond is infinite.
-/

import Stylesheet.Number.Rounding

namespace Stylesheet
namespace Number

/-- The units in 1: a unit is 2⁻¹⁰⁷⁴. -/
def unitsPerOne : Nat := Nat.pow 2 1074

/-- The distance of two neighbours of the grid at a magnitude of `units`:
53 significant bits are kept. -/
def gridStep (units : Nat) : Nat :=
  Nat.pow 2 (units.log2 - 52)

/-- A number of units that some finite binary64 number has. -/
def OnGrid (units : Nat) : Prop :=
  units < Nat.pow 2 2098 ∧ units % gridStep units = 0

instance (units : Nat) : Decidable (OnGrid units) :=
  inferInstanceAs (Decidable (_ ∧ _))

/-- Zero is on the grid. -/
theorem onGrid_zero : OnGrid 0 := by
  decide +kernel

/-- A binary64 number.  The two zeros differ in their sign; there is one value
that is not a number. -/
inductive Binary64 where
  /-- Not a number. -/
  | nan
  /-- An infinity. -/
  | infinite (negative : Bool)
  /-- A sign and a number of units of 2⁻¹⁰⁷⁴. -/
  | finite (negative : Bool) (units : Nat) (onGrid : OnGrid units)
  deriving DecidableEq

namespace Binary64

instance : Inhabited Binary64 := ⟨.finite false 0 onGrid_zero⟩

/-- The number of `units` with a sign, infinite when it is beyond the grid. -/
def ofUnits (negative : Bool) (units : Nat) : Binary64 :=
  if h : OnGrid units then .finite negative units h else .infinite negative

/-- The multiple of the grid step nearest to `n / d` units, ties to even. -/
def roundToGrid (n d : Nat) : Nat :=
  let step := gridStep (n / d)
  roundDiv n (d * step) * step

/-- **The one rounding of all arithmetic:** the binary64 number nearest to
`n / d` units, ties to even, with the given sign. -/
def ofQuotient (negative : Bool) (n d : Nat) : Binary64 :=
  ofUnits negative (roundToGrid n d)

/-- The binary64 number nearest to an integer. -/
def ofInt (i : Int) : Binary64 :=
  ofQuotient (i < 0) (i.natAbs * unitsPerOne) 1

/-- The binary64 number nearest to the decimal fraction `digits / 10 ^ places`. -/
def ofDecimal (digits places : Nat) : Binary64 :=
  ofQuotient false (digits * unitsPerOne) (Nat.pow 10 places)

/-- The signed number of units of a finite number. -/
def signedUnits (negative : Bool) (units : Nat) : Int :=
  if negative then -(units : Int) else units

/-- The number with the sign turned. -/
def neg : Binary64 → Binary64
  | .nan => .nan
  | .infinite s => .infinite (!s)
  | .finite s u h => .finite (!s) u h

/-- The number without its sign. -/
def abs : Binary64 → Binary64
  | .nan => .nan
  | .infinite _ => .infinite false
  | .finite _ u h => .finite false u h

/-- The sum.  A sum that is exactly zero is negative only if both terms are. -/
def add : Binary64 → Binary64 → Binary64
  | .nan, _ | _, .nan => .nan
  | .infinite s, .infinite t => if s = t then .infinite s else .nan
  | .infinite s, .finite .. => .infinite s
  | .finite .., .infinite t => .infinite t
  | .finite s u _, .finite t v _ =>
    let sum := signedUnits s u + signedUnits t v
    if sum = 0 then ofUnits (s && t) 0 else ofQuotient (sum < 0) sum.natAbs 1

/-- The difference. -/
def sub (x y : Binary64) : Binary64 :=
  add x y.neg

/-- The product. -/
def mul : Binary64 → Binary64 → Binary64
  | .nan, _ | _, .nan => .nan
  | .infinite s, .infinite t => .infinite (s != t)
  | .infinite s, .finite t v _ => if v = 0 then .nan else .infinite (s != t)
  | .finite s u _, .infinite t => if u = 0 then .nan else .infinite (s != t)
  | .finite s u _, .finite t v _ => ofQuotient (s != t) (u * v) unitsPerOne

/-- The quotient by a number that is not zero. -/
def div : Binary64 → Binary64 → Binary64
  | .nan, _ | _, .nan => .nan
  | .infinite _, .infinite _ => .nan
  | .infinite s, .finite t _ _ => .infinite (s != t)
  | .finite s _ _, .infinite t => ofUnits (s != t) 0
  | .finite s u _, .finite t v _ => ofQuotient (s != t) (u * unitsPerOne) v

/-- Whether the number is a zero of either sign. -/
def isZero : Binary64 → Bool
  | .finite _ u _ => u == 0
  | _ => false

/-- Whether the number is below zero. -/
def isNegative : Binary64 → Bool
  | .nan => false
  | .infinite s => s
  | .finite s u _ => s && u != 0

/-- The remainder of the division of `x` by `y` toward zero; it has the sign of
`x` and is exact. -/
def truncatedMod : Binary64 → Binary64 → Binary64
  | .nan, _ | _, .nan => .nan
  | .infinite _, _ => .nan
  | x@(.finite ..), .infinite _ => x
  | .finite s u _, .finite _ v _ => ofUnits s (u % v)

/-- **The remainder with the sign of the divisor.**  A truncated remainder of
the other sign has the divisor added; a zero takes the divisor's sign. -/
def floorMod (x y : Binary64) : Binary64 :=
  let r := truncatedMod x y
  if r.isZero then (if y.isNegative then r.abs.neg else r.abs)
  else if r = .nan then .nan
  else if r.isNegative != y.isNegative then add r y
  else r

/-- The integer that a finite integral number is. -/
def toInt? : Binary64 → Option Int
  | .finite s u _ =>
    if u % unitsPerOne = 0 then some (signedUnits s (u / unitsPerOne)) else none
  | _ => none

/-- The nearest integer, ties to even, of a finite number with these parts. -/
def roundToInt (negative : Bool) (units : Nat) : Int :=
  signedUnits negative (roundDiv units unitsPerOne)

/-- The greatest integer that is not above a finite number with these parts. -/
def floorToInt (negative : Bool) (units : Nat) : Int :=
  Int.fdiv (signedUnits negative units) unitsPerOne

/-- The smallest integer that is not below a finite number with these parts. -/
def ceilToInt (negative : Bool) (units : Nat) : Int :=
  -Int.fdiv (-(signedUnits negative units)) unitsPerOne

/-- The integer next to a finite number with these parts on the way to zero. -/
def truncToInt (negative : Bool) (units : Nat) : Int :=
  signedUnits negative (units / unitsPerOne)

/-- The interchange format: the sign bit, eleven bits of exponent and 52 bits of
fraction.  The leading bit of the units counts as the one that turns the scale
into the exponent.  What is not a number has none. -/
def toBits? : Binary64 → Option Nat
  | .nan => none
  | .infinite s => some (s.toNat * Nat.pow 2 63 + 2047 * Nat.pow 2 52)
  | .finite s u _ =>
    let scale := u.log2 - 52
    some (s.toNat * Nat.pow 2 63 + scale * Nat.pow 2 52 + u / Nat.pow 2 scale)

end Binary64
end Number
end Stylesheet
