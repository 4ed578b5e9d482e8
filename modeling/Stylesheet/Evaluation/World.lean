/-
# The world of an evaluation

Evaluating a style sheet changes three things: the scopes, the groups captured
by buffers, and the log.  Together they are the `World`.  An evaluation can be
interrupted by a failure or by a result on its way to the function that it
ends; what has happened to the world until then stays.

A world also has a `World.history` of what the buffers captured and the flushes
found, each with the scope whose entry it was.  Nothing is read from it: it is what
the order of groups and flushes is stated about.
-/

import Stylesheet.Scope
import Stylesheet.Log

namespace Stylesheet

/-- The captured groups, by their numbers. -/
abbrev Groups := Array Node

/-- What an evaluation changes. -/
structure World where
  /-- The scopes. -/
  scopes : Scopes := {}
  /-- The captured groups. -/
  groups : Groups := #[]
  /-- The notes. -/
  log : Log := #[]
  /-- What has been captured and found, each with the scope of the entry if there is
  one. -/
  history : Array (Option ScopeId × BufferStep) := #[]

/-- Why an evaluation does not go on. -/
inductive Interrupt where
  /-- A failure. -/
  | failure (f : Failure)
  /-- A result for the innermost function. -/
  | result (v : Value)
  /-- The depth that was allowed is used up. -/
  | exhausted

/-- The failure that an interrupt is outside every function. -/
def Interrupt.toFailure : Interrupt → Failure
  | failure f => f
  | result _ => .strayResult
  | exhausted => .tooDeep

/-- A computation that changes the world and may be interrupted. -/
abbrev Eval := ExceptT Interrupt (StateM World)

namespace Eval

/-- Ends with a failure. -/
def fail {α : Type} (f : Failure) : Eval α :=
  throw (.failure f)

/-- Ends with a cause whose place is not known here. -/
def failWith {α : Type} (c : Cause) : Eval α :=
  fail (.ofCause c)

/-- A computation that does not change the world. -/
def lift {α : Type} (x : Except Failure α) : Eval α :=
  match x with
  | .ok a => pure a
  | .error f => fail f

/-- A numeric computation. -/
def liftRange {α : Type} (x : Except Number.RangeError α) : Eval α :=
  lift (Stylesheet.liftRange x)

/-- Gives a failure the place `span`, unless it has one. -/
def locate {α : Type} (span : Span) (x : Eval α) : Eval α :=
  tryCatch x fun
    | .failure f => throw (.failure (f.locate span))
    | i => throw i

/-- Ends at the result of a function; `none` if there is none. -/
def catchResult (x : Eval Unit) : Eval (Option Value) :=
  tryCatch (do x; return none) fun
    | .result v => return some v
    | i => throw i

/-- The scopes as they are. -/
def scopes : Eval Scopes := do
  return (← get).scopes

/-- Changes the scopes. -/
def modifyScopes (f : Scopes → Scopes) : Eval Unit :=
  modify fun w => { w with scopes := f w.scopes }

/-- A new scope inside another. -/
def newScope (parent : ScopeId) (ownsBuffers : Bool) : Eval ScopeId :=
  modifyGet fun w =>
    let (i, scopes) := w.scopes.add (some parent) none (some ownsBuffers)
    (i, { w with scopes })

/-- A new block inside a scope. -/
def newBlock (parent : ScopeId) : Eval ScopeId :=
  newScope parent false

/-- A new group. -/
def newGroup (build : GroupId → Node) : Eval (GroupId × Node) :=
  modifyGet fun w =>
    let i := w.groups.size
    let node := build i
    ((i, node), { w with groups := w.groups.push node })

/-- Adds to the history. -/
def record (keeper : Option ScopeId) (step : BufferStep) : Eval Unit :=
  modify fun w => { w with history := w.history.push (keeper, step) }

/-- Leaves a note. -/
def note (level : Level) (stage : Stage) (text : String) : Eval Unit :=
  modify fun w => { w with log := w.log.push { level, stage, text } }

end Eval
end Stylesheet
