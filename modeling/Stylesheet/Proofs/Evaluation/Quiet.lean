/-
# Worlds whose buffers are left alone

In a store that is tame, functions are made of scripts and mixins of nodes that have not been
evaluated (`Scopes.Tame`).  `World.SameBuffers` says that nothing has been captured on the way
from one world to another: the history, the groups and the entries are as they were.
-/

import Stylesheet.Proofs.Evaluation.Run
import Stylesheet.Proofs.Node.Walk
import Stylesheet.Proofs.Scope.Buffers

namespace Stylesheet

/-- A store that operations make, in which mixins are made of nodes that have not been
evaluated and functions of scripts. -/
structure Scopes.Tame (bare : Bool) (s : Scopes) : Prop where
  reachable : s.Reachable
  mixins : ∀ i name d, (s.get i).mixins.get? name = some d →
    Node.freshAll bare d.body ∧ Node.tameAll d.body
  functions : ∀ i name d, (s.get i).functions.get? name = some d → Node.scriptedAll d.body

namespace Scopes

variable {bare : Bool} {s s' : Scopes} {i : Nat}

namespace Tame

/-- A store with the same definitions. -/
theorem of_same (h : s.Tame bare) (reachable : s'.Reachable)
    (mixins : ∀ j, (s'.get j).mixins = (s.get j).mixins)
    (functions : ∀ j, (s'.get j).functions = (s.get j).functions) : s'.Tame bare where
  reachable := reachable
  mixins i name d e := h.mixins i name d (by rwa [mixins] at e)
  functions i name d e := h.functions i name d (by rwa [functions] at e)

/-- A new scope has no definitions. -/
theorem add (h : s.Tame bare) {p : Nat} (hp : p < s.all.size) (owns : Option Bool) :
    (s.add (some p) none owns).2.Tame bare :=
  h.of_same (h.reachable.add none owns fun _ e => Option.some.inj e ▸ hp)
    (get_add_field (·.mixins) (fun _ _ _ => rfl) _ _ _)
    (get_add_field (·.functions) (fun _ _ _ => rfl) _ _ _)

/-- A variable is no definition. -/
theorem setLocalVar (h : s.Tame bare) (i : ScopeId) (name : String) (v : Value) :
    (s.setLocalVar i name v).Tame bare :=
  h.of_same (.setLocalVar i name v h.reachable) (get_modify_field (·.mixins) rfl)
    (get_modify_field (·.functions) rfl)

/-- Selectors are no definitions. -/
theorem setSelector (h : s.Tame bare) (i : ScopeId) (selector : Option (List String)) :
    (s.setSelector i selector).Tame bare :=
  h.of_same (.setSelector i selector h.reachable) (get_modify_field (·.mixins) rfl)
    (get_modify_field (·.functions) rfl)

/-- The name of a buffer is no definition. -/
theorem declareBuffer (h : s.Tame bare) (i : ScopeId) (name : String) :
    (s.declareBuffer i name).Tame bare := by
  refine h.of_same (.declareBuffer i name h.reachable) (fun j => ?_) (fun j => ?_)
  all_goals
    unfold Scopes.declareBuffer
    split
    · rfl
  · exact get_modify_field (·.mixins) (by rfl) j
  · exact get_modify_field (·.functions) (by rfl) j

/-- An entry of a buffer is no definition. -/
theorem appendBuffer (h : s.Tame bare) (i : ScopeId) (name : String) (g : GroupId) :
    (s.appendBuffer i name g).Tame bare := by
  have d := h.declareBuffer i name
  exact d.of_same (.appendBuffer i name g h.reachable) (get_modify_field (·.mixins) rfl)
    (get_modify_field (·.functions) rfl)

/-- A mixin is defined that is made of nodes that have not been evaluated. -/
theorem setMixin (h : s.Tame bare) {d : Definition} (name : String)
    (body : Node.freshAll bare d.body ∧ Node.tameAll d.body) :
    (s.setMixin d.scope name d).Tame bare where
  reachable := .setMixin name h.reachable
  mixins := all_setMixin h.mixins d.scope name body
  functions j x e he := h.functions j x e (by rwa [functions_setMixin] at he)

/-- A function is defined that is made of scripts. -/
theorem setFunction (h : s.Tame bare) {d : Definition} (name : String)
    (body : Node.scriptedAll d.body) : (s.setFunction d.scope name d).Tame bare where
  reachable := .setFunction name h.reachable
  mixins j x e he := h.mixins j x e (by rwa [mixins_setFunction] at he)
  functions := all_setFunction h.functions d.scope name body

/-- A function that is found is made of scripts. -/
theorem scripted_of_function? (h : s.Tame bare) {name : String} {d : Definition}
    (found : s.function? i name = some d) : Node.scriptedAll d.body := by
  obtain ⟨j, -, e⟩ := exists_of_function? found
  exact h.functions j _ d e

/-- A mixin that is found is made of nodes that have not been evaluated. -/
theorem written_of_mixin? (h : s.Tame bare) {name : String} {d : Definition}
    (found : s.mixin? i name = some d) : Node.freshAll bare d.body ∧ Node.tameAll d.body := by
  obtain ⟨j, -, e⟩ := exists_of_mixin? found
  exact h.mixins j _ d e

end Tame
end Scopes

/-- Nothing has been captured on the way from one world to another, nor any entry
extended. -/
structure World.SameBuffers (w w' : World) : Prop where
  grows : w.scopes.all.size ≤ w'.scopes.all.size
  history : w'.history = w.history
  groups : w'.groups = w.groups
  entries : ∀ i name, w'.scopes.entry i name = w.scopes.entry i name

namespace World.SameBuffers

variable {w w' w'' : World}

/-- Nothing is captured where nothing is done. -/
theorem refl (w : World) : w.SameBuffers w :=
  ⟨Nat.le_refl _, rfl, rfl, fun _ _ => rfl⟩

/-- Nothing is captured on two ways, one after the other. -/
theorem trans (h : w.SameBuffers w') (k : w'.SameBuffers w'') : w.SameBuffers w'' where
  grows := Nat.le_trans h.grows k.grows
  history := k.history.trans h.history
  groups := k.groups.trans h.groups
  entries i name := (k.entries i name).trans (h.entries i name)

/-- A change of one scope that keeps its entries. -/
theorem modify (w : World) (i : ScopeId) {f : Scope → Scope}
    (buffers : ∀ a, (f a).buffers = a.buffers) :
    w.SameBuffers { w with scopes := w.scopes.modify i f } where
  grows := Nat.le_of_eq (w.scopes.size_modify i f).symm
  history := rfl
  groups := rfl
  entries j name := by
    show (((w.scopes.modify i f).get j).buffers.get? name).getD [] = _
    rw [Scopes.get_modify_field (·.buffers) (buffers _)]
    rfl

/-- A name that is declared has an empty entry, as it had before. -/
theorem declareBuffer (w : World) (i : ScopeId) (name : String) :
    w.SameBuffers { w with scopes := w.scopes.declareBuffer i name } where
  grows := Nat.le_of_eq (w.scopes.size_declareBuffer i name).symm
  history := rfl
  groups := rfl
  entries := w.scopes.entry_declareBuffer i name

/-- A new scope is one without entries. -/
theorem newScope (w : World) (p : ScopeId) (owns : Bool) :
    w.SameBuffers ((Eval.newScope p owns).after w) where
  grows := by simp
  history := rfl
  groups := rfl
  entries i name := by
    rw [Eval.after_newScope, Scopes.entry, Scopes.get_add_field (·.buffers) fun _ _ _ => rfl]
    rfl

end World.SameBuffers
end Stylesheet
