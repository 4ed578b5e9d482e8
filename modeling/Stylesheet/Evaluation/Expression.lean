/-
# Evaluating expressions

Operands are evaluated from the left, and `and` and `or` look at their right
operand only if the left one does not decide.  A call evaluates its arguments
first, by position and then by name, and is then answered by a function of the
style sheet, by a built-in function, or, if there is neither, by the plain CSS
text of the call.

The evaluators of expressions and statements call each other.  They are written
against a `Recursion`, the evaluators that they are to call for what is inside
or elsewhere; `Recursion.ofDepth` ties the knot.
-/

import Stylesheet.Evaluation.World
import Stylesheet.Value.Builtin
import Stylesheet.Text.Blank

namespace Stylesheet

/-- The evaluators that an evaluator calls. -/
structure Recursion where
  /-- How often a loop without known end may go round. -/
  rounds : Nat
  /-- The value of an expression in a scope. -/
  eval : ScopeId → Expr → Eval Value
  /-- The nodes that a node becomes in a scope. -/
  visit : ScopeId → Node → Eval (List Node)

namespace Evaluation

/-- The text of a fragment. -/
def fragmentText (r : Recursion) (scope : ScopeId) : Fragment Expr → Eval String
  | .text s => return s
  | .hole e => do
    let v ← r.eval scope e
    Eval.liftRange v.plain

/-- A template with its holes filled. -/
def fill (r : Recursion) (scope : ScopeId) (t : Template) : Eval String := do
  let texts ← t.mapM (fragmentText r scope)
  return String.join texts

/-- Keyword arguments evaluated. -/
def evalKeywords (r : Recursion) (scope : ScopeId) (keywords : List (String × Expr)) :
    Eval (List (String × Value)) :=
  keywords.mapM fun (k, e) => return (k, ← r.eval scope e)

/-- Keywords by their normalized names; of two spellings of one name the last
value counts. -/
def normalizeKeywords (keywords : List (String × Value)) : Table Value :=
  keywords.foldl (fun t (k, v) => t.set (Name.normalize k) v) []

/-- The least name that is no parameter. -/
def unknownKeyword? (keywords : Table Value) (params : List String) : Option String :=
  (keywords.names.filter fun k => !params.contains k).foldl
    (fun least k =>
      match least with
      | none => some k
      | some l => if k < l then some k else some l)
    none

/-- The value of a parameter, `args` being what is left of the positional arguments.  A
default is evaluated in the new scope, so it sees the parameters before it. -/
def argument (r : Recursion) (d : Definition) (scope : ScopeId) (keywords : Table Value)
    (p : Parameter) (args : List Value) : Eval Value :=
  let key := Name.normalize p.1
  match args, keywords.get? key, p.2 with
  | _ :: _, some _, _ => Eval.failWith (.repeatedArgument d.what d.name key)
  | a :: _, none, _ => return a
  | [], some v, _ => return v
  | [], none, some e => r.eval scope e
  | [], none, none => Eval.failWith (.missingArgument d.what d.name key)

/-- Binds parameters from the left, `args` being what is left of the positional
arguments. -/
def bindParams (r : Recursion) (d : Definition) (scope : ScopeId) (keywords : Table Value) :
    List Parameter → List Value → Eval Unit
  | [], _ => return ()
  | p :: params, args => do
    let value ← argument r d scope keywords p args
    Eval.modifyScopes fun s => s.setLocalVar scope (Name.normalize p.1) value
    bindParams r d scope keywords params args.tail

/-- Binds every parameter in the scope of an invocation. -/
def bindArguments (r : Recursion) (d : Definition) (scope : ScopeId) (args : List Value)
    (keywords : List (String × Value)) : Eval Unit := do
  let keywords := normalizeKeywords keywords
  let names := d.params.map fun p => Name.normalize p.1
  if names.length < args.length then
    Eval.failWith (.tooManyArguments d.what d.name names.length args.length)
  else
    match unknownKeyword? keywords names with
    | some k => Eval.failWith (.unknownArgument d.what d.name k)
    | none => bindParams r d scope keywords d.params args

/-- The scope of an invocation, with every parameter bound. -/
def bind (r : Recursion) (d : Definition) (args : List Value)
    (keywords : List (String × Value)) : Eval ScopeId := do
  let scope ← Eval.newScope d.scope true
  bindArguments r d scope args keywords
  return scope

/-- The value of a call of a function of the style sheet. -/
def invoke (r : Recursion) (d : Definition) (args : List Value)
    (keywords : List (String × Value)) : Eval Value := do
  let scope ← bind r d args keywords
  let result ← Eval.catchResult (d.body.forM fun n => do let _ ← r.visit scope n)
  match result with
  | some v => return v
  | none => Eval.failWith (.missingResult d.name)

/-- A call that is written out as CSS. -/
def plainCall (name : String) (args : List Value) (keywords : List (String × Value)) :
    Eval Value := do
  let texts ← args.mapM fun v => Eval.liftRange v.css
  let named ← keywords.mapM fun (k, v) => return k ++ ": " ++ (← Eval.liftRange v.css)
  return .word (name ++ "(" ++ String.intercalate ", " (texts ++ named) ++ ")")

/-- The value of a call with evaluated arguments. -/
def call (r : Recursion) (scope : ScopeId) (name : String) (args : List Value)
    (keywords : List (String × Value)) : Eval Value := do
  match (← Eval.scopes).function? scope name with
  | some d => invoke r d args keywords
  | none =>
    match Builtin.find? name with
    | none => plainCall name args keywords
    | some f =>
      if keywords.isEmpty then
        match f.apply args with
        | some v => Eval.lift v
        | none => Eval.failWith (.wrongArguments name)
      else Eval.failWith (.unexpectedKeywords name)

/-- The value of an expression in a scope. -/
def evalExpr (r : Recursion) (scope : ScopeId) : Expr → Eval Value
  | .literal v => return v
  | .variable name => do
    match (← Eval.scopes).var? scope name with
    | some v => return v
    | none => Eval.failWith (.undefinedVariable name)
  | .binary left op right => do
    let a ← r.eval scope left
    match op with
    | .and => if a.truthy then r.eval scope right else return a
    | .or => if a.truthy then return a else r.eval scope right
    | op => do
      let b ← r.eval scope right
      Eval.lift (Value.operate op a b)
  | .unary op operand => do
    let v ← r.eval scope operand
    Eval.lift (Value.operateUnary op v)
  | .call name args keywords => do
    let args ← args.mapM (r.eval scope)
    let keywords ← evalKeywords r scope keywords
    call r scope name args keywords
  | .list items separator => do
    let values ← items.mapM (r.eval scope)
    return .list values separator
  | .interpolation fragments quoted => do
    let text ← fill r scope fragments
    return .string text quoted

end Evaluation
end Stylesheet
