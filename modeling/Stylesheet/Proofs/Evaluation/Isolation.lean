/-
# Invocations are isolated

The scope of an invocation is inside the scope that the mixin or the function closes
over, not inside the one where it is included or called.  So whatever a body runs, scopes
apart from the chain of the definition stay exactly as they are, and those on it get no new
name (`Evaluation.invocations_isolated`): the variables that are there may get other values,
and the entries of buffers that are there may grow.

That a definition which is found closes over the scope that keeps it is a fact about the
stores that evaluations reach (`Recursion.reachable_visit`).
-/

import Stylesheet.Proofs.Evaluation.Frame

namespace Stylesheet

namespace Scopes

variable {s s' : Scopes} {i c : Nat}

/-- The change from `s` to `s'` is isolated to the scope `c` and the scopes around it. -/
structure Isolated (c : ScopeId) (s s' : Scopes) : Prop where
  /-- No scope is lost. -/
  grows : s.all.size ≤ s'.all.size
  /-- A scope apart from the chain is entirely unchanged. -/
  apart : ∀ j : Nat, j < s.all.size → j ∉ s.chain c → s'.get j = s.get j
  /-- The place, the options, the role and the selectors of a scope are the same. -/
  fixed : ∀ j : Nat, j < s.all.size → (s'.get j).ancestors = (s.get j).ancestors ∧
    (s'.get j).options = (s.get j).options ∧ (s'.get j).ownsBuffers = (s.get j).ownsBuffers ∧
    (s'.get j).selector = (s.get j).selector
  /-- A scope has the variables that it had, perhaps with other values. -/
  vars : ∀ j : Nat, j < s.all.size → ∀ name,
    ((s'.get j).vars.get? name).isSome = ((s.get j).vars.get? name).isSome
  mixins : ∀ j : Nat, j < s.all.size → ∀ name,
    (s'.get j).mixins.get? name = (s.get j).mixins.get? name
  functions : ∀ j : Nat, j < s.all.size → ∀ name,
    (s'.get j).functions.get? name = (s.get j).functions.get? name
  /-- A scope has the entries of buffers that it had, perhaps with more groups at the end. -/
  buffers : ∀ j : Nat, j < s.all.size → ∀ name,
    match (s.get j).buffers.get? name with
    | none => (s'.get j).buffers.get? name = none
    | some groups => ∃ more, (s'.get j).buffers.get? name = some (groups ++ more)

/-- A frame that gains nothing isolates. -/
theorem Frame.isolated (f : Frame c .none s s') : Isolated c s s' where
  grows := f.grows
  apart := f.apart
  fixed j hj := by
    have k := f.keeps j hj
    exact ⟨k.ancestors, k.options, k.ownsBuffers, k.selector fun h => h.2⟩
  vars j hj name := by
    have k := f.keeps j hj
    rcases e : (s.get j).vars.get? name with _ | v
    · rw [k.newVars name (fun h => h.2) e]
    · exact k.var_isSome name (by rw [e]; rfl)
  mixins j hj name := (f.keeps j hj).mixins name fun h => h.2
  functions j hj name := (f.keeps j hj).functions name fun h => h.2
  buffers j hj name := by
    have k := f.keeps j hj
    split
    · rename_i e
      exact k.newBuffers (fun h => h.2) name e
    · rename_i groups e
      obtain ⟨l, el, more, rfl⟩ := k.buffers name groups e
      exact ⟨more, el⟩

end Scopes

/-- A node evaluated in a store that operations make leaves such a store behind. -/
theorem Recursion.reachable_visit (n : Nat) {w : World} (hw : w.scopes.Reachable) {i : Nat}
    (hi : i < w.scopes.all.size) (node : Node) :
    (((ofDepth n).visit i node).after w).scopes.Reachable :=
  (Evaluation.within_visit (framed_ofDepth n) i node w hw hi).1

namespace Evaluation

/-- **Invocations of mixins and functions are isolated.**  Take any store that operations
make and a mixin or a function that is found in it, from whatever scope.  Whatever the
arguments are, from wherever a mixin is included, and however deep its body or that of the
function goes on, binding the arguments and running the body is isolated to the scope that
the definition closes over and the scopes around it.  So it is when the run ends with a
result, and when it is interrupted. -/
theorem invocations_isolated (n : Nat) (w : World) (hw : w.scopes.Reachable) :
    (∀ (i site : ScopeId) (name : String) (d : Definition) (args : List Value)
        (keywords : List (String × Value)), w.scopes.mixin? i name = some d →
      w.scopes.Isolated d.scope
        ((includeMixin (.ofDepth n) site d args keywords).after w).scopes) ∧
    (∀ (i : ScopeId) (name : String) (d : Definition) (args : List Value)
        (keywords : List (String × Value)), w.scopes.function? i name = some d →
      w.scopes.Isolated d.scope ((invoke (.ofDepth n) d args keywords).after w).scopes) := by
  have framed := Recursion.framed_ofDepth n
  constructor
  · intro i site name d args keywords found
    have hd := hw.wellFormed.scope_lt_of_mixin? found
    exact (within_includeMixin framed site d args keywords w hw hd).2.isolated
  · intro i name d args keywords found
    have hd := hw.wellFormed.scope_lt_of_function? found
    exact (within_invoke framed d args keywords w hw hd).2.isolated

namespace Isolation

/-- `$name: $p`. -/
def assign (name : String) : Node :=
  .plain {} (.assignment name (some (.variable "p")) false) []

/-- `@buffer name { a: $y }`. -/
def collect (name : String) : Node :=
  .plain {} (.buffer { written := [.text name] })
    [.plain {} (.declaration [.text "a"] (some (.variable "y")) none none) []]

/-- A mixin of the root that assigns to two names and captures under two names. -/
def mixin : Definition where
  what := .mixin
  name := "m"
  params := [("p", none)]
  scope := 0
  body := [assign "x", assign "y", collect "k", collect "q"]

/-- A function of the root that assigns to two names. -/
def function : Definition where
  what := .function
  name := "f"
  params := [("p", none)]
  scope := 0
  body := [assign "x", assign "y", .plain {} (.result (some (.variable "x"))) []]

/-- The root, with the first of the two names as a variable and an entry of the first name of
a buffer. -/
def root : Scopes :=
  let s := ((Scopes.add {} none none none).2.setVar 0 "x" (.word "u")).declareBuffer 0 "k"
  (s.setMixin 0 "m" mixin).setFunction 0 "f" function

/-- With a scope inside that has the second name as a variable of its own, and its own entry
of the second name of a buffer. -/
def scopes : Scopes :=
  ((root.add (some 0) none (some true)).2.setLocalVar 1 "y" (.word "w")).declareBuffer 1 "q"

/-- The first store is one that operations make. -/
theorem reachable_root : root.Reachable :=
  .setFunction (d := function) "f" (.setMixin (d := mixin) "m" (.declareBuffer 0 "k"
    (.setLocalVar 0 "x" _ (.add none none .empty fun _ h => nomatch h))))

/-- The second store is one that operations make, too. -/
theorem reachable_scopes : scopes.Reachable := by
  refine .declareBuffer 1 "q" (.setLocalVar 1 "y" _ (.add none (some true) reachable_root ?_))
  rintro _ ⟨⟩
  exact Nat.one_pos

/-- The world after the mixin has been included from the inner scope. -/
def included : World :=
  (includeMixin (.ofDepth 6) 1 mixin [.word "v"] []).after { scopes }

/-- The world after the function has been called. -/
def called : World :=
  (invoke (.ofDepth 6) function [.word "v"] []).after { scopes }

/-- The inclusion ends, and the root has got the value and one of the two groups, but no
name. -/
theorem root_included :
    ((includeMixin (.ofDepth 6) 1 mixin [.word "v"] []).outcome { scopes }).isOk ∧
      (included.scopes.get 0).vars = [("x", .word "v")] ∧
      (included.scopes.get 0).buffers = [("k", [0])] ∧ included.groups.size = 2 :=
  ⟨by decide +kernel, by rfl, by decide +kernel, by decide +kernel⟩

/-- The function has got its value, and the root no name. -/
theorem root_called :
    ((invoke (.ofDepth 6) function [.word "v"] []).outcome { scopes }).isOk ∧
      (called.scopes.get 0).vars = [("x", .word "v")] ∧
      (called.scopes.get 0).buffers = [("k", [])] :=
  ⟨by decide +kernel, by rfl, by decide +kernel⟩

end Isolation

open Isolation in
/-- The mixin and the function, invoked from the inner scope: the root gets the value and one
of the groups, but no name, and the inner scope stays as it is. -/
theorem invocations_isolated_from_inside :
    scopes.Reachable ∧ scopes.mixin? 1 "m" = some mixin ∧ scopes.function? 1 "f" = some function ∧
      scopes.Isolated 0 included.scopes ∧ scopes.Isolated 0 called.scopes ∧
      included.scopes.get 1 = scopes.get 1 ∧ called.scopes.get 1 = scopes.get 1 ∧
      (((includeMixin (.ofDepth 6) 1 mixin [.word "v"] []).outcome { scopes }).isOk ∧
        (included.scopes.get 0).vars = [("x", .word "v")] ∧
        (included.scopes.get 0).buffers = [("k", [0])] ∧ included.groups.size = 2) ∧
      ((invoke (.ofDepth 6) function [.word "v"] []).outcome { scopes }).isOk ∧
        (called.scopes.get 0).vars = [("x", .word "v")] ∧
        (called.scopes.get 0).buffers = [("k", [])] := by
  have found : scopes.mixin? 1 "m" = some mixin := by rfl
  have found' : scopes.function? 1 "f" = some function := by rfl
  have isolated := invocations_isolated 6 { scopes } reachable_scopes
  have afterMixin : scopes.Isolated 0 included.scopes :=
    isolated.1 1 1 "m" mixin [.word "v"] [] found
  have afterFunction : scopes.Isolated 0 called.scopes :=
    isolated.2 1 "f" function [.word "v"] [] found'
  have apart : 1 ∉ scopes.chain 0 := by decide
  have there : 1 < scopes.all.size := by decide
  exact ⟨reachable_scopes, found, found', afterMixin, afterFunction,
    afterMixin.apart 1 there apart, afterFunction.apart 1 there apart, root_included, root_called⟩

end Evaluation
end Stylesheet
