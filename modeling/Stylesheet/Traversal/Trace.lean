/-
# Traces

A trace is a traversal that records which nodes it meets: their descriptions,
with those of the node and of the directive directly around them.  It can pass
over the content of some nodes and stop at one.
-/

import Stylesheet.Traversal

namespace Stylesheet

/-- What a trace is to do. -/
structure Trace where
  /-- The kinds that are recorded. -/
  kinds : List Kind
  /-- Whether the outcome of a node goes with its description. -/
  labelled : Bool := true
  /-- The descriptions of the nodes whose content is passed over. -/
  skipped : List String := []
  /-- The description of the node to stop at. -/
  stopAt : Option String := none

namespace Trace

/-- One recorded node: its description, and those of what is around it. -/
structure Event where
  /-- The node. -/
  label : String
  /-- The node directly around it. -/
  parent : Option String
  /-- The directive around it. -/
  directive : Option String
  deriving DecidableEq, Repr

/-- The outcome of a node in a trace. -/
inductive Outcome where
  /-- The description of a node. -/
  | label (text : String)
  /-- A node. -/
  | node (n : Node)
  /-- Several outcomes. -/
  | many (outcomes : List Outcome)

instance : Inhabited Outcome := ⟨.many []⟩

/-- A step of a trace, which may stop. -/
abbrev Step := ExceptT Unit (StateM (Array Event))

/-- The recording handler. -/
def record (t : Trace) (around : Surroundings) (n : Node) (inner : Step Outcome) :
    Step Outcome := do
  let label := n.describe
  modify fun events => events.push
    { label
      parent := around.parent.map Node.describe
      directive := around.directive?.map Node.describe }
  if t.stopAt = some label then throw ()
  else if t.skipped.contains label then return .label label
  else do
    let outcome ← inner
    return if t.labelled then .many [.label label, outcome] else outcome

/-- The traversal of a trace. -/
def traversal (t : Trace) : Traversal Step Outcome where
  handler := fun k => if t.kinds.contains k then some t.record else none
  many := Outcome.many
  one := Outcome.node

/-- What a trace of a tree records, and its outcome unless it has been stopped. -/
def run (t : Trace) (tree : Node) : Array Event × Option Outcome :=
  let (outcome, events) := (t.traversal.run tree).run.run #[]
  match outcome with
  | .ok o => (events, some o)
  | .error () => (events, none)

end Trace
end Stylesheet
