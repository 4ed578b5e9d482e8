/-
# Values

What an expression evaluates to: nothing, a truth value, a number with a unit,
a string with or without quotes, or a list.  `Value.css` is the text of a value
in CSS and `Value.plain` the text inside an interpolation, where strings lose
their quotes.  Any value can be seen as a list by `Value.items`.
-/

import Stylesheet.Diagnostic

namespace Stylesheet

open Number

/-- What stands between the items of a list.  A list that is joined with another
name than the two known ones keeps that name and is written with spaces. -/
inductive Separator where
  | space
  | comma
  | named (name : String)
  deriving DecidableEq, Repr, BEq

namespace Separator

/-- The word for a separator. -/
def name : Separator → String
  | space => "space"
  | comma => "comma"
  | named n => n

/-- The separator that a word stands for. -/
def ofName (name : String) : Separator :=
  if name = "space" then space else if name = "comma" then comma else named name

/-- The text between two items. -/
def text : Separator → String
  | comma => ", "
  | _ => " "

end Separator

/-- An evaluated expression. -/
inductive Value where
  | null
  | bool (b : Bool)
  | number (amount : Numeric) (unit : String)
  | string (text : String) (quoted : Bool)
  | list (items : List Value) (separator : Separator)
  deriving BEq

namespace Value

instance : Inhabited Value := ⟨.null⟩

/-- A backslash goes before every backslash and every double quote. -/
def escapeChars : List Char → List Char
  | [] => []
  | c :: rest =>
    if c = '\\' || c = '"' then '\\' :: c :: escapeChars rest else c :: escapeChars rest

/-- A text in double quotes. -/
def quote (text : String) : String :=
  String.ofList ('"' :: escapeChars text.toList ++ ['"'])

mutual

/-- The text of a value; `quotes` says whether strings keep their quotes.  The
nulls of a list are left out. -/
def render (quotes : Bool) : Value → Except RangeError String
  | .null => .ok ""
  | .bool b => .ok (if b then "true" else "false")
  | .number amount unit => do
    let digits ← amount.text
    return digits ++ unit
  | .string text quoted => .ok (if quoted && quotes then quote text else text)
  | .list items separator => do
    let texts ← renderItems quotes items
    return separator.text.intercalate texts

/-- The texts of the items that are not null. -/
def renderItems (quotes : Bool) : List Value → Except RangeError (List String)
  | [] => .ok []
  | .null :: rest => renderItems quotes rest
  | item :: rest => do
    let text ← render quotes item
    let texts ← renderItems quotes rest
    return text :: texts

end

/-- The text of a value in CSS. -/
def css (v : Value) : Except RangeError String :=
  v.render true

/-- The text of a value inside an interpolation. -/
def plain (v : Value) : Except RangeError String :=
  v.render false

/-- Whether a condition holds: only null and false do not. -/
def truthy : Value → Bool
  | .null => false
  | .bool b => b
  | _ => true

/-- A value seen as a list: null is empty, any other single value has one item. -/
def items : Value → List Value
  | .null => []
  | .list vs _ => vs
  | v => [v]

/-- The word for the type of a value. -/
def typeName : Value → String
  | .null => "null"
  | .bool _ => "bool"
  | .number .. => "number"
  | .string .. => "string"
  | .list .. => "list"

mutual

/-- Equality of the style language: numbers by exact value and unit, strings
whatever their quotes, lists item by item whatever their separators. -/
def eq : Value → Value → Bool
  | .null, .null => true
  | .bool a, .bool b => a == b
  | .number a u, .number b v => a.equal b && u == v
  | .string s _, .string t _ => s == t
  | .list xs _, .list ys _ => eqItems xs ys
  | _, _ => false

/-- Equality of two lists of the same length, item by item. -/
def eqItems : List Value → List Value → Bool
  | [], [] => true
  | x :: xs, y :: ys => eq x y && eqItems xs ys
  | _, _ => false

end

/-- A whole number without unit. -/
def ofNat (n : Nat) : Value :=
  .number (.int n) ""

/-- A string without quotes. -/
def word (text : String) : Value :=
  .string text false

end Value
end Stylesheet
