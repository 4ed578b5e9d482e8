/-
# Traversals

A traversal goes through a tree from the top, a node before its children.  It
may have handlers for some kinds of nodes; a handler gets the node, the nodes
around it, and the default behaviour for its children, which it can run or not.
Without a handler the outcome of a node is the list of the outcomes of its
children.  An `@if` without a handler is its own outcome, after its children and
its `@else` clause have been visited.

`Piece` is an outcome that is made of nodes: one node, several pieces, or nothing.
-/

import Stylesheet.Node

namespace Stylesheet

/-- The nodes around a node. -/
structure Surroundings where
  /-- The node directly around it. -/
  parent : Option Node := none
  /-- The directives around it, innermost first. -/
  directives : List Node := []

namespace Surroundings

/-- The innermost directive around a node. -/
def directive? (s : Surroundings) : Option Node :=
  s.directives.head?

/-- What is around the children of a node. -/
def enter (s : Surroundings) (n : Node) : Surroundings where
  parent := some n
  directives := if n.kind.isDirective then n :: s.directives else s.directives

end Surroundings

/-- How a traversal makes its outcomes. -/
structure Traversal (m : Type → Type) (ρ : Type) where
  /-- The handler of a kind. -/
  handler : Kind → Option (Surroundings → Node → m ρ → m ρ)
  /-- The outcome of several nodes. -/
  many : List ρ → ρ
  /-- The outcome that a node itself is. -/
  one : Node → ρ

namespace Traversal

variable {m : Type → Type} [Monad m] {ρ : Type}

mutual

/-- The outcome of a node. -/
def visit (t : Traversal m ρ) (around : Surroundings) : Node → m ρ
  | n@(.plain _ head children) =>
    let inner := t.many <$> visitAll t (around.enter n) children
    match t.handler head.kind with
    | some handle => handle around n inner
    | none => inner
  | n@(.cond _ _ children otherwise) =>
    let inner := t.many <$> visitAll t (around.enter n) children
    match t.handler .cond with
    | some handle => handle around n inner
    | none => do
      let _ ← inner
      let _ ← visitOption t around otherwise
      return t.one n

/-- The outcomes of some nodes. -/
def visitAll (t : Traversal m ρ) (around : Surroundings) : List Node → m (List ρ)
  | [] => return []
  | n :: ns => do
    let first ← visit t around n
    let others ← visitAll t around ns
    return first :: others

/-- The outcome of a clause that may be absent. -/
def visitOption (t : Traversal m ρ) (around : Surroundings) : Option Node → m (Option ρ)
  | none => return none
  | some n => do
    let outcome ← visit t around n
    return some outcome

end

/-- The outcome of a whole tree. -/
def run (t : Traversal m ρ) (tree : Node) : m ρ :=
  t.visit {} tree

end Traversal

/-- An outcome made of nodes. -/
inductive Piece where
  /-- One node. -/
  | one (n : Node)
  /-- Several pieces. -/
  | many (pieces : List Piece)
  /-- No node. -/
  | nothing

namespace Piece

instance : Inhabited Piece := ⟨.nothing⟩

/-- A piece as a list of pieces. -/
def toList : Piece → List Piece
  | one n => [one n]
  | many pieces => pieces
  | nothing => []

/-- Changes a piece that is one node. -/
def mapOne (f : Node → Node) : Piece → Piece
  | one n => one (f n)
  | p => p

/-- The pieces with the last one changed if it is one node. -/
def mapLast (f : Node → Node) : List Piece → List Piece
  | [] => []
  | [p] => [p.mapOne f]
  | p :: ps => p :: mapLast f ps

/-- The traversal that keeps nothing but the shape of a tree. -/
def shape : Traversal Id Piece where
  handler := fun _ => none
  many := Piece.many
  one := Piece.one

end Piece

/-- **Rising.**  The content that a node has after it has risen out of the rule
directly around it: the rule is repeated around its content and visited in its
place.  With `flatten` the pieces of the outcome become the content and the last
node ends no group any more; without, the outcome is the only piece.  Nodes that
do not rise, and nodes that are not directly inside a rule, have none. -/
def Node.rise? {m : Type → Type} [Monad m] (n : Node) (visit : Node → m Piece) (parent : Node)
    (flatten : Bool) : m (Option (List Piece)) :=
  if n.kind.bubbles && parent.kind == .rule then do
    let outcome ← visit (parent.shell.withChildren n.children)
    let pieces := if flatten then outcome.toList else [outcome]
    return some (Piece.mapLast (Node.markGroupEnd false) pieces)
  else return none

end Stylesheet
