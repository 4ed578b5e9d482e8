/-
# The rules of the brace syntax

`Rule α` names the rules that read an `α`.  What a statement reads is a node, or
nothing for a lone semicolon; a few statements are accepted by the grammar only
to be refused with a precise message, so what they read is `Built`: a node or a
diagnostic.
-/

import Stylesheet.Node
import Stylesheet.Peg.Basic

namespace Stylesheet

/-- What a statement builds, or why it is refused. -/
abbrev Built (α : Type) := Except Diagnostic α

/-- An argument of a call. -/
inductive Argument where
  /-- An argument by position. -/
  | positional (value : Expr)
  /-- An argument by name. -/
  | keyword (name : String) (value : Expr)

/-- The arguments of a call: by position, and by name in the order of the first
mention. -/
structure Arguments where
  /-- The arguments by position. -/
  positional : List Expr := []
  /-- The arguments by name. -/
  keywords : List (String × Expr) := []

/-- `table` with the value of `key` set: in its place if it is there, at the end
otherwise. -/
def setKey {α : Type} (key : String) (value : α) : List (String × α) → List (String × α)
  | [] => [(key, value)]
  | (k, v) :: rest =>
    if k = key then (k, value) :: rest else (k, v) :: setKey key value rest

/-- The arguments of a list, a repeated keyword having its last value. -/
def Arguments.ofList (args : List Argument) : Arguments :=
  args.foldl
    (fun all arg =>
      match arg with
      | .positional e => { all with positional := all.positional ++ [e] }
      | .keyword k e => { all with keywords := setKey k e all.keywords })
    {}

/-- The rules of the grammar, by what they read. -/
inductive Rule : Type → Type where
  -- statements
  | sheet : Rule (Built (List Node))
  | statement : Rule (Built (Option Node))
  | block : Rule (Built (List Node))
  | stop : Rule Unit
  | eof : Rule Unit
  | empty : Rule Unit
  | comment : Rule Node
  | loudComment : Rule Node
  | silentComment : Rule Node
  -- buffers
  | buffer : Rule (Built Node)
  | bufferBody : Rule (Option (Built (List Node)))
  | flush : Rule (Built Node)
  | flushBody : Rule (Option (Built (List Node)))
  | badBuffer : Rule (Built Node)
  | bufferName : Rule Template
  -- variables and control directives
  | assignment : Rule Node
  | defaultFlag : Rule Unit
  | ifStatement : Rule (Built Node)
  | elseClause : Rule (Built Node)
  | elseTest : Rule Expr
  | forStatement : Rule (Built Node)
  | forKind : Rule Bool
  | eachStatement : Rule (Built Node)
  | whileStatement : Rule (Built Node)
  -- at-rules
  | media : Rule (Built Node)
  | supports : Rule (Built Node)
  | importStatement : Rule Node
  | extend : Rule Node
  | inclusion : Rule Node
  | mixinDefinition : Rule (Built Node)
  | functionDefinition : Rule (Built Node)
  | returnStatement : Rule Node
  | debug : Rule Node
  | warn : Rule Node
  | directive : Rule (Built Node)
  | directiveBody : Rule (Option (Built (List Node)))
  | atValue : Rule Template
  | params : Rule (List Parameter)
  | paramList : Rule (List Parameter)
  | param : Rule Parameter
  | paramDefault : Rule Expr
  | callArgs : Rule Arguments
  | argList : Rule (List Argument)
  | arg : Rule Argument
  | keywordArg : Rule Argument
  -- rules and declarations
  | declaration : Rule Node
  | propertyName : Rule Template
  | rule : Rule (Built Node)
  | selector : Rule Template
  -- expressions
  | commaList : Rule Expr
  | spaceList : Rule Expr
  | orExpr : Rule Expr
  | andExpr : Rule Expr
  | eqExpr : Rule Expr
  | eqOp : Rule BinaryOp
  | relExpr : Rule Expr
  | relOp : Rule BinaryOp
  | addExpr : Rule Expr
  | addTail : Rule (BinaryOp × Expr)
  | addOp : Rule BinaryOp
  | mulExpr : Rule Expr
  | mulOp : Rule BinaryOp
  | unary : Rule Expr
  | notOp : Rule Unit
  | sign : Rule UnaryOp
  | primary : Rule Expr
  | parens : Rule Expr
  | rawFunction : Rule Expr
  | call : Rule Expr
  | arguments : Rule Arguments
  | functionName : Rule String
  | variableUse : Rule Expr
  | number : Rule Expr
  | quoted : Rule Expr
  | doubleQuoted : Rule Expr
  | singleQuoted : Rule Expr
  | interpolatedIdent : Rule Expr
  | identChunk : Rule String
  | color : Rule Expr
  | important : Rule Expr
  | ident : Rule Expr
  | interpolation : Rule Expr
  -- tokens
  | name : Rule String
  | nameChar : Rule Unit
  | space : Rule Unit
  | gap : Rule Unit

end Stylesheet
