/-
# Expressions

The trees that property values, assignments, conditions and interpolations are
written as.  A text with `#{…}` holes in it is a list of fragments: a selector,
a property name, the name of a buffer and the prelude of an at-rule are such
lists, and so is an interpolated string.

`Expr.copy` rebuilds an expression node by node.
-/

import Stylesheet.Value.Operation

namespace Stylesheet

/-- A piece of a text with holes. -/
inductive Fragment (ε : Type) where
  /-- Fixed text. -/
  | text (s : String)
  /-- A hole to be filled by the value of an expression. -/
  | hole (e : ε)
  deriving BEq

/-- An expression. -/
inductive Expr where
  /-- A value as it is written. -/
  | literal (v : Value)
  /-- The value of a variable. -/
  | variable (name : String)
  /-- An operator between two operands. -/
  | binary (left : Expr) (op : BinaryOp) (right : Expr)
  /-- An operator before an operand. -/
  | unary (op : UnaryOp) (operand : Expr)
  /-- A function with its positional and keyword arguments. -/
  | call (name : String) (args : List Expr) (keywords : List (String × Expr))
  /-- A list of at least two items. -/
  | list (items : List Expr) (separator : Separator)
  /-- A string with holes. -/
  | interpolation (fragments : List (Fragment Expr)) (quoted : Bool)
  deriving BEq

/-- A text with holes. -/
abbrev Template := List (Fragment Expr)

namespace Template

/-- The text with every hole shown as `#{...}`. -/
def sketch (t : Template) : String :=
  String.join (t.map fun
    | .text s => s
    | .hole _ => "#\x7b...\x7d")

/-- The template with `s` at its end, joined to a text that is there already. -/
def addText : Template → String → Template
  | [], s => [.text s]
  | [.text r], s => [.text (r ++ s)]
  | f :: fs, s => f :: addText fs s

/-- The template of some pieces, neighbouring texts joined. -/
def ofPieces (pieces : List (Fragment Expr)) : Template :=
  pieces.foldl
    (fun t piece =>
      match piece with
      | .text s => addText t s
      | .hole e => t ++ [.hole e])
    []

end Template

namespace Expr

instance : Inhabited Expr := ⟨.literal .null⟩

mutual

/-- The expression rebuilt from its parts; a value is its own copy. -/
def copy : Expr → Expr
  | .literal v => .literal v
  | .variable name => .variable name
  | .binary l op r => .binary l.copy op r.copy
  | .unary op e => .unary op e.copy
  | .call name args keywords => .call name (copyAll args) (copyKeywords keywords)
  | .list items separator => .list (copyAll items) separator
  | .interpolation fragments quoted => .interpolation (copyFragments fragments) quoted

/-- Every expression of a list rebuilt. -/
def copyAll : List Expr → List Expr
  | [] => []
  | e :: es => e.copy :: copyAll es

/-- Every keyword argument rebuilt. -/
def copyKeywords : List (String × Expr) → List (String × Expr)
  | [] => []
  | (k, e) :: rest => (k, e.copy) :: copyKeywords rest

/-- Every hole of a template rebuilt. -/
def copyFragments : List (Fragment Expr) → List (Fragment Expr)
  | [] => []
  | .text s :: rest => .text s :: copyFragments rest
  | .hole e :: rest => .hole e.copy :: copyFragments rest

end

end Expr
end Stylesheet
