/-
# Nesting

Where a node may be is decided by the nodes around it that are no control
directives: `@if`, `@for`, `@each` and `@while` are invisible, and an `@else`
clause is where its `@if` is.  `Nesting.violation?` is the rule for one node, given
the kinds around it, innermost first; `Nesting.check` applies it to every node
of a tree, a node before its children and the children of an `@if` before its
`@else` clause.
-/

import Stylesheet.Node

namespace Stylesheet
namespace Nesting

/-- What may hold declarations. -/
def holdsDeclarations : Kind → Bool
  | .rule | .directive | .media | .supports | .buffer | .mixin | .declaration => true
  | _ => false

/-- What may hold an `@extend`. -/
def holdsExtends : Kind → Bool
  | .rule | .buffer | .mixin => true
  | _ => false

/-- What the body of a function may hold. -/
def inFunction (k : Kind) : Bool :=
  k.isControl || match k with
    | .assignment | .result | .debug | .warn | .comment => true
    | _ => false

/-- The rule that a node of kind `kind` breaks directly inside `parent`, which is
inside `outer`. -/
def violation? (parent : Kind) (outer : List Kind) (kind : Kind) (hasChildren : Bool) :
    Option Placement :=
  let inside (k : Kind) : Bool := (parent :: outer).contains k
  if parent = .function && !inFunction kind then some .functionContent
  else
    match kind with
    | .importSheet =>
      if inside .buffer then some .importInBuffer
      else if parent ≠ .root then some .importAtRoot
      else none
    | .declaration => if holdsDeclarations parent then none else some .declarationParent
    | .extend => if holdsExtends parent then none else some .extendParent
    | .mixin => if parent = .root then none else some .mixinAtRoot
    | .function => if parent = .root then none else some .functionAtRoot
    | .result => if inside .function then none else some .resultInFunction
    | .flush => if hasChildren then some .flushContent else none
    | _ => none

/-- The rule for one node, given the kinds around it, innermost first. -/
def checkPlace (around : List Kind) (n : Node) : Except Diagnostic Unit :=
  match around with
  | [] => .ok ()
  | parent :: outer =>
    match violation? parent outer n.kind (!n.children.isEmpty) with
    | none => .ok ()
    | some rule => .error { cause := .misplaced rule parent n.kind, span := n.info.span }

/-- The kinds around the children of a node. -/
def within (around : List Kind) (k : Kind) : List Kind :=
  if k.isControl then around else k :: around

mutual

/-- Checks a node and everything in it. -/
def checkIn (around : List Kind) : Node → Except Diagnostic Unit
  | n@(.plain _ h cs) => do
    checkPlace around n
    checkAll (within around h.kind) cs
  | n@(.cond _ _ cs o) => do
    checkPlace around n
    checkAll (within around .cond) cs
    checkOption around o

/-- Checks some nodes, the first one first. -/
def checkAll (around : List Kind) : List Node → Except Diagnostic Unit
  | [] => .ok ()
  | n :: ns => do
    checkIn around n
    checkAll around ns

/-- Checks a clause that may be absent. -/
def checkOption (around : List Kind) : Option Node → Except Diagnostic Unit
  | none => .ok ()
  | some n => checkIn around n

end

/-- **Whether every node of a tree is where it may be**, and the first that is
not. -/
def check (tree : Node) : Except Diagnostic Unit :=
  checkIn [] tree

end Nesting
end Stylesheet
