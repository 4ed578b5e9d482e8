/-
# Blocks keep their names

A body is evaluated in a block of its own, so a node brings no name into the scope where it
stands but the one that it is there to bring: an assignment its variable, a definition its
mixin or function.  Buffers are the exception; a new name of one goes to the owner of the
entries.  `Scopes.Confined` says so of two stores, and `Recursion.confined_visit` of every
node, whatever is inside.

The clauses of an `@if` stand where it stands.  An `@else` holds a body or a further `@if`,
so all of them are conditions (`Node.conditional`) and bring no name.
-/

import Stylesheet.Proofs.Evaluation.Frame

namespace Stylesheet

namespace Node

/-- The variable that a node assigns to where it stands. -/
def assigned? : Node → Option String
  | plain _ (.assignment name _ _) _ => some (Name.normalize name)
  | _ => none

/-- The mixin that a node defines where it stands. -/
def definedMixin? : Node → Option String
  | plain _ (.mixin name _) _ => some (Name.normalize name)
  | _ => none

/-- The function that a node defines where it stands. -/
def definedFunction? : Node → Option String
  | plain _ (.function name _) _ => some (Name.normalize name)
  | _ => none

/-- Whether every clause after a condition is a condition. -/
def conditional : Node → Bool
  | cond _ _ _ (some clause) => clause.kind == .cond && clause.conditional
  | _ => true

end Node

namespace Scopes

variable {s s' : Scopes} {e : Nat} {n : Node}

/-- The change from `s` to `s'` is one that the node `n` in the scope `e` may make. -/
structure Confined (e : ScopeId) (n : Node) (s s' : Scopes) : Prop where
  /-- No scope is lost. -/
  grows : s.all.size ≤ s'.all.size
  /-- A scope that is neither `e` nor around it is entirely unchanged. -/
  apart : ∀ f : Nat, f < s.all.size → f ∉ s.chain e → s'.get f = s.get f
  /-- No variable is lost. -/
  vars : ∀ f : Nat, f < s.all.size → ∀ name, ((s.get f).vars.get? name).isSome →
    ((s'.get f).vars.get? name).isSome
  /-- The only new variable is one that `n` assigns to in `e`. -/
  newVars : ∀ f : Nat, f < s.all.size → ∀ name, ((s'.get f).vars.get? name).isSome →
    ((s.get f).vars.get? name).isSome ∨ f = e ∧ n.assigned? = some name
  /-- The only new mixin is one that `n` defines in `e`. -/
  mixins : ∀ f : Nat, f < s.all.size → ∀ name,
    (s'.get f).mixins.get? name = (s.get f).mixins.get? name ∨
      f = e ∧ n.definedMixin? = some name
  /-- The only new function is one that `n` defines in `e`. -/
  functions : ∀ f : Nat, f < s.all.size → ∀ name,
    (s'.get f).functions.get? name = (s.get f).functions.get? name ∨
      f = e ∧ n.definedFunction? = some name
  /-- An entry of a buffer goes on from what it was. -/
  buffers : ∀ f : Nat, f < s.all.size → ∀ name groups,
    (s.get f).buffers.get? name = some groups →
      ∃ more, (s'.get f).buffers.get? name = some (groups ++ more)
  /-- A new entry is one of the scope that owns those of `e`. -/
  newBuffers : ∀ f : Nat, f < s.all.size → ∀ name,
    ((s'.get f).buffers.get? name).isSome →
      ((s.get f).buffers.get? name).isSome ∨ f = s.owner e
  /-- The place, the options, the role and the selectors of a scope are the same. -/
  fixed : ∀ f : Nat, f < s.all.size → (s'.get f).ancestors = (s.get f).ancestors ∧
    (s'.get f).options = (s.get f).options ∧ (s'.get f).ownsBuffers = (s.get f).ownsBuffers ∧
    (s'.get f).selector = (s.get f).selector

end Scopes

namespace Node

/-- The gains of a condition are those of a block. -/
theorem gains_of_kind_cond {n : Node} (kind : n.kind = .cond) (h : n.conditional) :
    n.gains = .buffers := by
  fun_induction gains n with
  | case1 info head children => cases head <;> cases kind
  | case2 => rfl
  | case3 info test children clause ih =>
    rw [conditional, Bool.and_eq_true, beq_iff_eq] at h
    exact ih h.1 h.2

/-- What a scope gains by a node is what the node brings. -/
theorem brings_of_gains {n : Node} (h : n.conditional) (name : String) :
    (n.gains.var name → n.assigned? = some name) ∧
      (n.gains.mixin name → n.definedMixin? = some name) ∧
      (n.gains.function name → n.definedFunction? = some name) ∧ ¬ n.gains.selector := by
  match n with
  | .cond .. =>
    rw [gains_of_kind_cond rfl h]
    exact ⟨False.elim, False.elim, False.elim, id⟩
  | .plain info head children =>
    cases head with
    | assignment => exact ⟨fun e => congrArg some e.symm, False.elim, False.elim, id⟩
    | mixin => exact ⟨False.elim, fun e => congrArg some e.symm, False.elim, id⟩
    | function => exact ⟨False.elim, False.elim, fun e => congrArg some e.symm, id⟩
    | _ => exact ⟨False.elim, False.elim, False.elim, id⟩

end Node

namespace Scopes

variable {s s' : Scopes} {e : Nat} {n : Node}

/-- What is framed with the gains of a node is confined to what the node brings. -/
theorem Frame.confined (frame : s.Frame e n.gains s') (h : n.conditional) :
    Confined e n s s' where
  grows := frame.grows
  apart := frame.apart
  vars f hf name := (frame.keeps f hf).var_isSome name
  newVars f hf name new := by
    by_contra none
    rw [not_or, not_and, Option.not_isSome_iff_eq_none] at none
    have absent := (frame.keeps f hf).newVars name
      (fun gain => none.2 gain.1 ((Node.brings_of_gains h name).1 gain.2)) none.1
    rw [absent] at new
    cases new
  mixins f hf name := by
    by_contra none
    rw [not_or, not_and] at none
    exact none.1 ((frame.keeps f hf).mixins name fun gain =>
      none.2 gain.1 ((Node.brings_of_gains h name).2.1 gain.2))
  functions f hf name := by
    by_contra none
    rw [not_or, not_and] at none
    exact none.1 ((frame.keeps f hf).functions name fun gain =>
      none.2 gain.1 ((Node.brings_of_gains h name).2.2.1 gain.2))
  buffers f hf name groups entry := by
    obtain ⟨groups', entry', more, rfl⟩ := (frame.keeps f hf).buffers name groups entry
    exact ⟨more, entry'⟩
  newBuffers f hf name new := by
    by_contra none
    rw [not_or, Option.not_isSome_iff_eq_none] at none
    have absent := (frame.keeps f hf).newBuffers (fun gain => none.2 gain.1) name none.1
    rw [absent] at new
    cases new
  fixed f hf := by
    have keeps := frame.keeps f hf
    exact ⟨keeps.ancestors, keeps.options, keeps.ownsBuffers,
      keeps.selector fun gain => (Node.brings_of_gains h "").2.2.2 gain.2⟩

end Scopes

/-- **Blocks keep their names.**  Take any store that operations make and any scope `e` of
it.  A node that is evaluated in `e`, however deep, changes no scope but `e` and those around
it, and brings these nothing but new values of the variables they have, new groups at the
ends of their entries, new entries of the owner of those of `e`, and to `e` itself the one
name that the node assigns to or defines.  So it does when it is interrupted. -/
theorem Recursion.confined_visit (depth : Nat) (n : Node) (h : n.conditional) (w : World)
    (hw : w.scopes.Reachable) (e : Nat) (he : e < w.scopes.all.size) :
    w.scopes.Confined e n (((ofDepth depth).visit e n).after w).scopes :=
  (Evaluation.within_visit (framed_ofDepth depth) e n w hw he).2.confined h

/-- An assignment in a condition, in the scope of a document. -/
theorem Recursion.confined_visit_block :
    let body : List Node := [.plain {} (.assignment "x" (some (.literal .null)) false) []]
    let n : Node := .cond {} none body (some (.cond {} none [] none))
    let w : World := { scopes := (Scopes.add {} none none none).2 }
    n.conditional ∧ w.scopes.Reachable ∧ 0 < w.scopes.all.size ∧
      w.scopes.Confined 0 n (((ofDepth 3).visit 0 n).after w).scopes := by
  intro body n w
  have reachable : (Scopes.add {} none none none).2.Reachable :=
    Scopes.Reachable.empty.add none none fun _ h => nomatch h
  have size : 0 < w.scopes.all.size := by decide
  exact ⟨rfl, reachable, size, confined_visit 3 n rfl w reachable 0 size⟩

end Stylesheet
