/-
# Built-in functions

The functions that are known without a definition.  They are looked up by the
normalized name, take a fixed number of positional arguments and check their
types one after the other.  `Builtin.apply` is `none` when the number of
arguments is wrong; the caller knows how the function was spelled.
-/

import Stylesheet.Value
import Stylesheet.Name

namespace Stylesheet

open Number

/-- The built-in functions. -/
inductive Builtin where
  | choose
  | unquote
  | quote
  | length
  | nth
  | join
  | typeOf
  | unit
  | unitless
  | percentage
  | round
  | ceil
  | floor
  | abs
  deriving DecidableEq, Repr

namespace Builtin

/-- The normalized name of a function. -/
def name : Builtin → String
  | choose => "if"
  | unquote => "unquote"
  | quote => "quote"
  | length => "length"
  | nth => "nth"
  | join => "join"
  | typeOf => "type-of"
  | unit => "unit"
  | unitless => "unitless"
  | percentage => "percentage"
  | round => "round"
  | ceil => "ceil"
  | floor => "floor"
  | abs => "abs"

/-- Every built-in function. -/
def all : List Builtin :=
  [choose, unquote, quote, length, nth, join, typeOf, unit, unitless, percentage, round,
    ceil, floor, abs]

/-- The function of a name. -/
def find? (called : String) : Option Builtin :=
  all.find? (·.name == Name.normalize called)

/-- The number and unit of an argument that has to be a number. -/
def numberOf (fn : Builtin) : Value → Except Failure (Numeric × String)
  | .number x u => .ok (x, u)
  | v => do
    let t ← liftRange v.css
    .error (.ofCause (.numberExpected t fn.name))

/-- The text of an argument that has to be a string. -/
def stringOf (fn : Builtin) : Value → Except Failure String
  | .string t _ => .ok t
  | v => do
    let t ← liftRange v.css
    .error (.ofCause (.stringExpected t fn.name))

/-- An integer next to a number, with its unit. -/
def wholeOf (fn : Builtin) (direction : Numeric.Direction) (v : Value) :
    Except Failure Value := do
  let (x, u) ← numberOf fn v
  let i ← liftRange (x.toWhole direction)
  return .number (.int i) u

/-- The refusal of an index, which is too long to be written in a message when it has
more than 4300 digits. -/
def outOfBounds (index : Int) (length : Nat) : Failure :=
  if index.natAbs < Nat.pow 10 4300 then .ofCause (.indexOutOfBounds index length)
  else .range .undefined

/-- The item at an index from 1; a fraction of the index is cut off. -/
def item (list index : Value) : Except Failure Value := do
  let (x, _) ← numberOf nth index
  let i ← liftRange (x.toWhole .toZero)
  let items := list.items
  if i < 1 then .error (outOfBounds i items.length)
  else
    match items[i.toNat - 1]? with
    | some v => return v
    | none => .error (outOfBounds i items.length)

/-- The separator of a value that is a list, and a space otherwise. -/
def separatorOf : Value → Separator
  | .list _ s => s
  | _ => .space

/-- The function on its arguments, `none` if their number is wrong. -/
def apply : Builtin → List Value → Option (Except Failure Value)
  | choose, [c, a, b] => some (.ok (if c.truthy then a else b))
  | unquote, [s] => some (do return .string (← stringOf unquote s) false)
  | quote, [s] => some (do return .string (← stringOf quote s) true)
  | length, [v] => some (.ok (.ofNat v.items.length))
  | nth, [list, index] => some (item list index)
  | join, [a, b] => some (.ok (.list (a.items ++ b.items) (separatorOf a)))
  | join, [a, b, s] => some do
    let name ← stringOf join s
    return .list (a.items ++ b.items) (.ofName name)
  | typeOf, [v] => some (.ok (.word v.typeName))
  | unit, [v] => some (do return .string (← numberOf unit v).2 true)
  | unitless, [v] => some (do return .bool ((← numberOf unitless v).2 == ""))
  | percentage, [v] => some do
    let (x, u) ← numberOf percentage v
    if u ≠ "" then
      let t ← liftRange v.css
      .error (.ofCause (.unitlessExpected t percentage.name))
    else
      let y ← liftRange (x.mul (.int 100))
      return .number y "%"
  | round, [v] => some (wholeOf round .nearest v)
  | ceil, [v] => some (wholeOf ceil .up v)
  | floor, [v] => some (wholeOf floor .down v)
  | abs, [v] => some do
    let (x, u) ← numberOf abs v
    return .number x.abs u
  | _, _ => none

end Builtin
end Stylesheet
