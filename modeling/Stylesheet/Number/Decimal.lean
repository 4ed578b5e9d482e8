/-
# The decimal text of a number

A number is written in positional notation with at most five decimals, never
with an exponent: the multiple of 10⁻⁵ nearest to its exact value, ties to the
even one, without zeros at the end of the fraction.  A minus sign is kept also
when the digits after it are all zero, except that both zeros are written `0`.
-/

import Stylesheet.Number.Binary64

namespace Stylesheet
namespace Number

/-- How many decimals a number is written with at most. -/
def decimalPlaces : Nat := 5

/-- The decimals of `n / 10 ^ places`, for `n < 10 ^ places`, without the zeros
at the end. -/
def fractionDigits : (places : Nat) → (n : Nat) → List Char
  | 0, _ => []
  | k + 1, n =>
    if n = 0 then [] else Nat.digitChar (n / Nat.pow 10 k) :: fractionDigits k (n % Nat.pow 10 k)

/-- `n / 10 ^ places` in positional notation. -/
def positional (places n : Nat) : List Char :=
  let decimals := fractionDigits places (n % Nat.pow 10 places)
  Nat.toDigits 10 (n / Nat.pow 10 places) ++ (if decimals.isEmpty then [] else '.' :: decimals)

/-- A minus sign for what is negative. -/
def signText (negative : Bool) : List Char :=
  if negative then ['-'] else []

/-- A finite number of these parts, rounded to `decimalPlaces`. -/
def decimalChars (negative : Bool) (units : Nat) : List Char :=
  signText negative ++
    positional decimalPlaces (roundDiv (units * Nat.pow 10 decimalPlaces) unitsPerOne)

/-- An integer in decimal digits. -/
def integerChars (i : Int) : List Char :=
  signText (i < 0) ++ Nat.toDigits 10 i.natAbs

/-- The text of a binary64 number. -/
def Binary64.text : Binary64 → String
  | .nan => "nan"
  | .infinite s => if s then "-inf" else "inf"
  | .finite s u _ => String.ofList (if u = 0 then ['0'] else decimalChars s u)

/-- Zero has no fraction digits. -/
theorem fractionDigits_zero (places : Nat) : fractionDigits places 0 = [] := by
  cases places <;> rfl

end Number
end Stylesheet
