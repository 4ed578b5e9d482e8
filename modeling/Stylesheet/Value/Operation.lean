/-
# Operators on values

Arithmetic is for numbers; on other values `+`, `-` and `/` join texts, and `*`,
`%` and the comparisons are refused.  The unit of a sum is the unit of either
term, of a product the unit of the one factor that has one, and a quotient of
equal units has none.

Which of two faults is reported is part of the rules: a sum, a difference and
a remainder are computed before their units are compared, a product and a
quotient after, and a zero divisor comes before everything.
-/

import Stylesheet.Value

namespace Stylesheet

open Number

/-- The operators between two operands.  A symbol that is none of them is
refused when it is evaluated. -/
inductive BinaryOp where
  | or
  | and
  | eq
  | ne
  | lt
  | gt
  | le
  | ge
  | add
  | sub
  | mul
  | div
  | mod
  | unknown (symbol : String)
  deriving DecidableEq, Repr, BEq

namespace BinaryOp

/-- How an operator is written. -/
def symbol : BinaryOp → String
  | or => "or"
  | and => "and"
  | eq => "=="
  | ne => "!="
  | lt => "<"
  | gt => ">"
  | le => "<="
  | ge => ">="
  | add => "+"
  | sub => "-"
  | mul => "*"
  | div => "/"
  | mod => "%"
  | unknown s => s

/-- The operators that have a meaning. -/
def all : List BinaryOp :=
  [or, and, eq, ne, lt, gt, le, ge, add, sub, mul, div, mod]

/-- The operator that is written so. -/
def ofSymbol (s : String) : BinaryOp :=
  (all.find? (·.symbol == s)).getD (unknown s)

end BinaryOp

/-- The operators before an operand.  A symbol that is none of them is kept
before a number and joined to the text of another value. -/
inductive UnaryOp where
  | not
  | minus
  | plus
  | unknown (symbol : String)
  deriving DecidableEq, Repr, BEq

namespace UnaryOp

/-- How an operator is written. -/
def symbol : UnaryOp → String
  | not => "not"
  | minus => "-"
  | plus => "+"
  | unknown s => s

/-- The operator that is written so. -/
def ofSymbol (s : String) : UnaryOp :=
  if s = "not" then not else if s = "-" then minus else if s = "+" then plus else unknown s

end UnaryOp

namespace Value

/-- The unit of a sum: that of either term, if they do not disagree. -/
def joinUnits (u v symbol : String) : Except Failure String :=
  if u ≠ "" && v ≠ "" && u ≠ v then .error (.ofCause (.incompatibleUnits v u symbol))
  else .ok (if u ≠ "" then u else v)

/-- The CSS texts of two values. -/
def cssBoth (a b : Value) : Except Failure (String × String) := do
  let s ← liftRange a.css
  let t ← liftRange b.css
  return (s, t)

/-- The texts of two values with a symbol between them. -/
def joinTexts (a : Value) (symbol : String) (b : Value) : Except Failure Value := do
  let (s, t) ← cssBoth a b
  return word (s ++ symbol ++ t)

/-- The refusal of an operation between two values. -/
def refuse (a : Value) (operation : String) (b : Value) : Except Failure Value := do
  let (s, t) ← cssBoth a b
  .error (.ofCause (.undefinedOperation s operation t))

/-- The refusal of a product or quotient that CSS cannot write. -/
def refuseUnits (a : Value) (symbol : String) (b : Value) : Except Failure Value := do
  let (s, t) ← cssBoth a b
  .error (.ofCause (.invalidCss s symbol t))

/-- The sum.  A string keeps its quotes and takes the plain text of the other
operand; a string on the right gives its own quotes to the sum. -/
def plus : Value → Value → Except Failure Value
  | .number x u, .number y v => do
    let z ← liftRange (x.add y)
    let w ← joinUnits u v "+"
    return .number z w
  | .string s q, b => do
    let t ← liftRange b.plain
    return .string (s ++ t) q
  | a, .string t q => do
    let s ← liftRange a.css
    return .string (s ++ t) q
  | a, b => joinTexts a "" b

/-- The difference. -/
def minus : Value → Value → Except Failure Value
  | .number x u, .number y v => do
    let z ← liftRange (x.sub y)
    let w ← joinUnits u v "-"
    return .number z w
  | a, b => joinTexts a "-" b

/-- The product. -/
def times : Value → Value → Except Failure Value
  | a@(.number x u), b@(.number y v) =>
    if u ≠ "" && v ≠ "" then refuseUnits a "*" b
    else do
      let z ← liftRange (x.mul y)
      return .number z (if u ≠ "" then u else v)
  | a, b => refuse a "times" b

/-- The quotient. -/
def dividedBy : Value → Value → Except Failure Value
  | a@(.number x u), b@(.number y v) =>
    if y.isZero then .error (.ofCause .divisionByZero)
    else if v ≠ "" && v ≠ u then refuseUnits a "/" b
    else do
      let z ← liftRange (x.div y)
      return .number z (if v ≠ "" then "" else u)
  | a, b => joinTexts a "/" b

/-- The remainder. -/
def modulo : Value → Value → Except Failure Value
  | .number x u, .number y v =>
    if y.isZero then .error (.ofCause .divisionByZero)
    else do
      let z ← liftRange (x.mod y)
      let w ← joinUnits u v "%"
      return .number z w
  | a, b => refuse a "mod" b

/-- A comparison of two numbers with compatible units. -/
def compare (symbol : String) (holds : Numeric → Numeric → Bool) :
    Value → Value → Except Failure Value
  | .number x u, .number y v => do
    let _ ← joinUnits u v symbol
    return .bool (holds x y)
  | .number .., b => do
    let t ← liftRange b.css
    .error (.ofCause (.notComparable t symbol))
  | a, _ => do
    let s ← liftRange a.css
    .error (.ofCause (.notComparable s symbol))

/-- An operator on two evaluated operands.  `or` and `and` give the operand that
decides. -/
def operate : BinaryOp → Value → Value → Except Failure Value
  | .or, a, b => .ok (if a.truthy then a else b)
  | .and, a, b => .ok (if a.truthy then b else a)
  | .eq, a, b => .ok (.bool (a.eq b))
  | .ne, a, b => .ok (.bool (!a.eq b))
  | .lt, a, b => compare "<" Numeric.less a b
  | .gt, a, b => compare ">" (fun x y => y.less x) a b
  | .le, a, b => compare "<=" Numeric.lessEqual a b
  | .ge, a, b => compare ">=" (fun x y => y.lessEqual x) a b
  | .add, a, b => a.plus b
  | .sub, a, b => a.minus b
  | .mul, a, b => a.times b
  | .div, a, b => a.dividedBy b
  | .mod, a, b => a.modulo b
  | .unknown s, _, _ => .error (.ofCause (.unknownOperator s))

/-- An operator on one evaluated operand.  A sign before something other than a
number is joined to its text. -/
def operateUnary : UnaryOp → Value → Except Failure Value
  | .not, v => .ok (.bool (!v.truthy))
  | .minus, .number x u => .ok (.number x.neg u)
  | _, .number x u => .ok (.number x u)
  | op, v => do
    let t ← liftRange v.css
    return word (op.symbol ++ t)

end Value
end Stylesheet
