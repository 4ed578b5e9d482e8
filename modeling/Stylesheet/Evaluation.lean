/-
# Evaluation

`Recursion.ofDepth n` are the evaluators that may call each other to a depth of
`n`; an evaluation that goes deeper is `exhausted`.  `Evaluation.depth` is a depth
that no machine reaches.

`Document.evaluate` evaluates a tree in a fresh scope: the outcome is the tree
without variables, control directives, definitions and inclusions, together with
the groups that its flushes refer to.
-/

import Stylesheet.Evaluation.Statement

namespace Stylesheet

/-- The evaluators with a bound on the depth of their calls. -/
def Recursion.ofDepth : Nat → Recursion
  | 0 =>
    { rounds := 0
      eval := fun _ _ => throw .exhausted
      visit := fun _ _ => throw .exhausted }
  | n + 1 =>
    { rounds := n
      eval := fun scope e => Evaluation.evalExpr (Recursion.ofDepth n) scope e
      visit := fun scope node => Evaluation.visitNode (Recursion.ofDepth n) scope node }

namespace Evaluation

/-- The depth that evaluations are allowed. -/
def depth : Nat := Nat.pow 2 62

/-- The value of an expression in a scope. -/
def eval (scope : ScopeId) (e : Expr) : Eval Value :=
  (Recursion.ofDepth depth).eval scope e

/-- The nodes that a node becomes in a scope. -/
def visit (scope : ScopeId) (n : Node) : Eval (List Node) :=
  (Recursion.ofDepth depth).visit scope n

/-- A world with one scope, the root of a document. -/
def start (options : Options) (groups : Groups) (log : Log) : ScopeId × World :=
  let (root, scopes) := Scopes.add {} none (some options) none
  (root, { scopes, groups, log })

end Evaluation

/-- The outcome of an evaluation in the fresh scope of a document, and the world after
it; the groups and the log are those it starts from. -/
def Eval.runFresh {α : Type} (options : Options) (groups : Groups) (log : Log)
    (x : ScopeId → Eval α) : Except Interrupt α × World :=
  let (root, world) := Evaluation.start options groups log
  (x root).run.run world

/-- Runs an evaluation in the fresh scope of a document; the groups are those it
starts from, and those it has at its end. -/
def Eval.inDocument {α : Type} (options : Options) (groups : Groups)
    (x : ScopeId → Eval α) : Logged (α × Groups) := fun log =>
  let (outcome, world) := Eval.runFresh options groups log x
  match outcome with
  | .ok a => (.ok (a, world.groups), world.log)
  | .error i => (.error i.toFailure, world.log)

/-- A style sheet tree and the groups that its flushes refer to. -/
structure Captured (α : Type) where
  /-- The tree, or several. -/
  content : α
  /-- The groups. -/
  groups : Groups := #[]

/-- The nodes that a tree becomes in a fresh scope, evaluated to a depth of at most
`depth`. -/
def Document.evaluateTo (depth : Nat) (options : Options) (tree : Captured Node) :
    Logged (Captured (List Node)) := do
  let (content, groups) ←
    Eval.inDocument options tree.groups fun scope =>
      (Recursion.ofDepth depth).visit scope tree.content
  return { content, groups }

/-- The nodes that a tree becomes in a fresh scope. -/
def Document.evaluate (options : Options) (tree : Captured Node) :
    Logged (Captured (List Node)) :=
  Document.evaluateTo Evaluation.depth options tree

end Stylesheet
