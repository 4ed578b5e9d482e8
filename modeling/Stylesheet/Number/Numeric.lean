/-
# Numbers of the style language

A number is a binary64 number or an unbounded integer.  A literal is the
former; counting and rounding give the latter.  Two integers are added,
subtracted, multiplied and reduced exactly; a quotient is always binary64; where
the two kinds meet, the integer becomes binary64, which fails when it is beyond
the range.  Order and equality compare the exact values whatever their kinds:
`Numeric.position` gives the value a place on the extended line.
-/

import Stylesheet.Number.Decimal

namespace Stylesheet
namespace Number

/-- Why a number has no result of the kind asked for. -/
inductive RangeError where
  /-- An integer too large for binary64, or an infinity where an integer is needed. -/
  | overflow
  /-- No number where an integer is needed. -/
  | undefined
  deriving DecidableEq, Repr

/-- A binary64 number or an unbounded integer. -/
inductive Numeric where
  /-- A binary64 number. -/
  | real (x : Binary64)
  /-- An integer. -/
  | int (i : Int)
  deriving DecidableEq

namespace Numeric

instance : Inhabited Numeric := ⟨.int 0⟩

/-- A rounded number, refused when it is beyond the range. -/
def inRange : Binary64 → Except RangeError Binary64
  | .infinite _ => .error .overflow
  | x => .ok x

/-- The binary64 number nearest to an integer in range. -/
def realOfInt (i : Int) : Except RangeError Binary64 :=
  inRange (Binary64.ofInt i)

/-- The value as binary64. -/
def toReal : Numeric → Except RangeError Binary64
  | .real x => .ok x
  | .int i => realOfInt i

/-- Exact on two integers, binary64 otherwise. -/
def lift (onInt : Int → Int → Int) (onReal : Binary64 → Binary64 → Binary64) :
    Numeric → Numeric → Except RangeError Numeric
  | .int a, .int b => .ok (.int (onInt a b))
  | a, b => do
    let x ← a.toReal
    let y ← b.toReal
    return .real (onReal x y)

/-- The sum. -/
def add : Numeric → Numeric → Except RangeError Numeric :=
  lift (· + ·) Binary64.add

/-- The difference. -/
def sub : Numeric → Numeric → Except RangeError Numeric :=
  lift (· - ·) Binary64.sub

/-- The product. -/
def mul : Numeric → Numeric → Except RangeError Numeric :=
  lift (· * ·) Binary64.mul

/-- The remainder with the sign of a divisor that is not zero. -/
def mod : Numeric → Numeric → Except RangeError Numeric :=
  lift Int.fmod Binary64.floorMod

/-- The quotient by a number that is not zero, rounded once to binary64. -/
def div : Numeric → Numeric → Except RangeError Numeric
  | .int a, .int b => do
    let x ← inRange (.ofQuotient ((a < 0) != (b < 0)) (a.natAbs * unitsPerOne) b.natAbs)
    return .real x
  | a, b => do
    let x ← a.toReal
    let y ← b.toReal
    return .real (x.div y)

/-- The number with the sign turned. -/
def neg : Numeric → Numeric
  | .real x => .real x.neg
  | .int i => .int (-i)

/-- The number without its sign. -/
def abs : Numeric → Numeric
  | .real x => .real x.abs
  | .int i => .int i.natAbs

/-- The place of a number on the extended line: first the infinities, then the
exact value in units of 2⁻¹⁰⁷⁴.  What is not a number has none. -/
def position : Numeric → Option (Int × Int)
  | .real .nan => none
  | .real (.infinite s) => some (if s then -1 else 1, 0)
  | .real (.finite s u _) => some (0, Binary64.signedUnits s u)
  | .int i => some (0, i * unitsPerOne)

/-- Whether two numbers have one exact value. -/
def equal (a b : Numeric) : Bool :=
  a.position.isSome && a.position == b.position

/-- Whether the first number is below the second. -/
def less (a b : Numeric) : Bool :=
  match a.position, b.position with
  | some (c, x), some (d, y) => c < d || (c == d && x < y)
  | _, _ => false

/-- Whether the first number is below the second or equal to it. -/
def lessEqual (a b : Numeric) : Bool :=
  less a b || equal a b

/-- Whether the number is zero. -/
def isZero (a : Numeric) : Bool :=
  a.position == some (0, 0)

/-- How a number is brought to an integer. -/
inductive Direction where
  /-- To the nearest, ties to even. -/
  | nearest
  /-- Up. -/
  | up
  /-- Down. -/
  | down
  /-- Toward zero. -/
  | toZero
  deriving DecidableEq, Repr

/-- The integer next to a number in a direction. -/
def toWhole (direction : Direction) : Numeric → Except RangeError Int
  | .int i => .ok i
  | .real .nan => .error .undefined
  | .real (.infinite _) => .error .overflow
  | .real (.finite s u _) => .ok <|
    match direction with
    | .nearest => Binary64.roundToInt s u
    | .up => Binary64.ceilToInt s u
    | .down => Binary64.floorToInt s u
    | .toZero => Binary64.truncToInt s u

/-- The integer that an integral number is, if it is one.  An integer beyond the
range of binary64 is refused as an overflow. -/
def asWhole : Numeric → Except RangeError (Option Int)
  | .real x => .ok x.toInt?
  | .int i => do
    let _ ← realOfInt i
    return some i

/-- The text of a number.  An integer of 10¹⁶ or more is brought to binary64
before it is written. -/
def text : Numeric → Except RangeError String
  | .real x => .ok x.text
  | .int i =>
    if i.natAbs < Nat.pow 10 16 then .ok (String.ofList (integerChars i))
    else do
      let x ← realOfInt i
      return x.text

end Numeric
end Number
end Stylesheet
