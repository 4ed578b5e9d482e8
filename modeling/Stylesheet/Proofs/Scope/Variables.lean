/-
# What an assignment changes

An assignment writes to the nearest scope that has the variable, or to the scope that assigns
if there is none (`Scopes.AssignsTo`).  From then on the value is found exactly from where that
scope is in reach and no nearer one has the variable (`Scopes.Sees`); whatever else is looked up,
from whichever scope, is what it was (`Scopes.var?_setVar`).
-/

import Stylesheet.Proofs.Scope.Store

namespace Stylesheet
namespace Scopes

/-- Whether a search for a variable that starts at `i` comes as far as `o`: no nearer scope has
the variable. -/
def Sees (s : Scopes) (i : ScopeId) (key : String) (o : ScopeId) : Prop :=
  ∃ nearer farther, s.chain i = nearer ++ o :: farther ∧
    ∀ j ∈ nearer, (s.get j).vars.get? key = none

/-- Whether `o` is the nearest scope that has a variable, from `i`, or is `i` itself, from where
there is none that has it. -/
def AssignsTo (s : Scopes) (i : ScopeId) (key : String) (o : ScopeId) : Prop :=
  (s.Sees i key o ∧ ((s.get o).vars.get? key).isSome) ∨
    o = i ∧ ∀ j ∈ s.chain i, (s.get j).vars.get? key = none

variable {s : Scopes} {i o : Nat} {key : String}

/-- The nearest scope of a kind comes after others of the chain that are not of the kind. -/
theorem nearest?_eq_some_iff {p : Scope → Bool} :
    s.nearest? i p = some o ↔ p (s.get o) = true ∧ ∃ nearer farther,
      s.chain i = nearer ++ o :: farther ∧ ∀ j ∈ nearer, p (s.get j) = false := by
  simp [nearest?, List.find?_eq_some_iff_append]

/-- No scope with a property is found if none in the chain has it. -/
theorem nearest?_eq_none_iff {p : Scope → Bool} :
    s.nearest? i p = none ↔ ∀ j ∈ s.chain i, p (s.get j) = false := by
  simp [nearest?]

/-- **An assignment writes to the scope that holds the variable.** -/
theorem assignsTo_iff_holder_eq (name : String) :
    s.AssignsTo i (Name.normalize name) o ↔ s.holder i name = o := by
  let has (scope : Scope) : Bool := (scope.vars.get? (Name.normalize name)).isSome
  have found : s.Sees i (Name.normalize name) o ∧ has (s.get o) = true ↔
      s.nearest? i has = some o := by
    simp [nearest?_eq_some_iff, Sees, has, and_comm]
  have nowhere : (∀ j ∈ s.chain i, (s.get j).vars.get? (Name.normalize name) = none) ↔
      s.nearest? i has = none := by
    simp [nearest?_eq_none_iff, has]
  have holder : s.holder i name = (s.nearest? i has).getD i := rfl
  unfold AssignsTo
  rw [found, nowhere, holder]
  cases s.nearest? i has with
  | none => simp [eq_comm]
  | some k => simp

/-- The variables of the scopes after one of them has set one of its own. -/
theorem vars_setLocalVar (ho : o < s.all.size) (name : String) (v : Value) (j : ScopeId)
    (x : String) : ((s.setLocalVar o name v).get j).vars.get? x =
      if j = o ∧ x = Name.normalize name then some v else (s.get j).vars.get? x := by
  unfold setLocalVar
  by_cases e : j = o
  · subst e
    simp [get_modify_self ho, Table.get?_set]
  · rw [get_modify_of_ne e, if_neg fun both => e both.1]

/-- An assignment does not move any scope. -/
theorem chain_setLocalVar (s : Scopes) (o : ScopeId) (name : String) (v : Value) (i : ScopeId) :
    (s.setLocalVar o name v).chain i = s.chain i :=
  congrArg (i :: ·) (get_modify_field (·.ancestors) rfl i)

namespace Nested

/-- No scope is around itself. -/
theorem notMem_before (hs : s.Nested) {before rest : List ScopeId}
    (e : s.chain i = before ++ o :: rest) : o ∉ before := by
  intro mem
  obtain ⟨first, between, rfl⟩ := List.append_of_mem mem
  have outside : s.chain i = first ++ o :: (between ++ o :: rest) := by simpa using e
  have again : s.chain o = o :: (between ++ o :: rest) := hs.chain_of_chain_eq outside
  have around : o ∈ (s.get o).ancestors := by
    rw [(List.cons.inj again).2]
    simp
  exact absurd (hs.lt_of_mem_ancestors around).1 (Nat.lt_irrefl o)

end Nested

/-- The value that a scope has set is found wherever a search comes as far as the scope. -/
theorem var?_of_sees (hs : s.Nested) (ho : o < s.all.size) {n m : String} (v : Value)
    (same : Name.normalize m = Name.normalize n) (sees : s.Sees i (Name.normalize n) o) :
    (s.setLocalVar o n v).var? i m = some v := by
  obtain ⟨nearer, farther, chain, none⟩ := sees
  refine List.findSome?_eq_some_iff.2 ⟨nearer, o, farther, ?_, ?_, fun j hj => ?_⟩
  · rw [chain_setLocalVar, chain]
  · exact (vars_setLocalVar ho n v o _).trans (if_pos ⟨rfl, same⟩)
  · have other : j ≠ o := fun e => hs.notMem_before chain (e ▸ hj)
    refine (vars_setLocalVar ho n v j _).trans ?_
    rw [if_neg fun both => other both.1, same, none j hj]

/-- A search that does not come as far as the scope finds what it found before. -/
theorem var?_of_not_sees (hs : s.Nested) (ho : o < s.all.size) {n m : String} (v : Value)
    (hidden : ¬(Name.normalize m = Name.normalize n ∧ s.Sees i (Name.normalize n) o)) :
    (s.setLocalVar o n v).var? i m = s.var? i m := by
  -- the scopes of a list other than `o`, or all if the name is another one, give what they gave
  have apart {l : List ScopeId} (out : o ∉ l ∨ Name.normalize m ≠ Name.normalize n) :
      l.findSome? (fun j => ((s.setLocalVar o n v).get j).vars.get? (Name.normalize m)) =
        l.findSome? fun j => (s.get j).vars.get? (Name.normalize m) := by
    refine findSome?_congr fun j hj => ?_
    rw [vars_setLocalVar ho, if_neg]
    rintro ⟨rfl, same⟩
    exact out.elim (· hj) (· same)
  unfold var? find?
  rw [chain_setLocalVar]
  by_cases same : Name.normalize m = Name.normalize n
  · by_cases inReach : o ∈ s.chain i
    · obtain ⟨nearer, farther, chain⟩ := List.append_of_mem inReach
      have some : (nearer.findSome? fun j => (s.get j).vars.get? (Name.normalize m)).isSome := by
        by_contra none
        rw [Option.not_isSome_iff_eq_none, List.findSome?_eq_none_iff, same] at none
        exact hidden ⟨same, nearer, farther, chain, none⟩
      rw [chain, List.findSome?_append, List.findSome?_append,
        apart (.inl (hs.notMem_before chain)), Option.or_of_isSome some, Option.or_of_isSome some]
    · exact apart (.inl inReach)
  · exact apart (.inr same)

/-- **What is read after an assignment.**  The scope that is written to is the nearest that has
the variable, or the one that assigns if there is none.  From whichever scope a name is looked up
then, the new value is found if the name is spelled like the variable and the search comes as far
as that scope, and what was found before otherwise. -/
theorem var?_setVar (hs : s.Nested) (hi : i < s.all.size) (n : String) (v : Value) :
    ∃ o : ScopeId, (∀ k, s.AssignsTo i (Name.normalize n) k ↔ k = o) ∧
      ∀ (j : ScopeId) (m : String),
        (Name.normalize m = Name.normalize n ∧ s.Sees j (Name.normalize n) o →
          (s.setVar i n v).var? j m = some v) ∧
        (¬(Name.normalize m = Name.normalize n ∧ s.Sees j (Name.normalize n) o) →
          (s.setVar i n v).var? j m = s.var? j m) := by
  have assigned : s.AssignsTo i (Name.normalize n) (s.holder i n) :=
    (assignsTo_iff_holder_eq n).2 rfl
  have inReach : s.holder i n ∈ s.chain i := by
    rcases assigned with ⟨⟨nearer, farther, chain, -⟩, -⟩ | ⟨e, -⟩
    · rw [chain]
      simp
    · rw [e]
      exact s.mem_chain_self i
  have there := hs.lt_size_of_mem_chain hi inReach
  refine ⟨s.holder i n, fun k => (assignsTo_iff_holder_eq n).trans eq_comm, fun j m => ⟨?_, ?_⟩⟩
  · rintro ⟨same, sees⟩
    exact var?_of_sees hs there v same sees
  · exact var?_of_not_sees hs there v

/-- Of three scopes, each inside the one before, the inner two read what the innermost assigns to
the middle one, and the outermost keeps its own. -/
theorem var?_setVar_shadowed :
    let s := (single none none).performAll [.setLocalVar 0 "my-box" (.word "outer"),
      .child 0 none none, .setLocalVar 1 "my_box" (.word "inner"), .child 1 none none]
    s.Nested ∧ 2 < s.all.size ∧
      (s.setVar 2 "my__box" (.word "new")).var? 1 "my_box" = some (.word "new") ∧
      (s.setVar 2 "my__box" (.word "new")).var? 0 "my_box" = s.var? 0 "my_box" := by
  intro s
  have nested : s.Nested := nested_performAll (nested_single none none) _
  have there : 2 < s.all.size := by decide +kernel
  obtain ⟨o, assigned, reads⟩ := var?_setVar nested there "my__box" (.word "new")
  obtain rfl : 1 = o :=
    (assigned 1).1 ((assignsTo_iff_holder_eq "my__box").2 (by decide +kernel))
  have same : Name.normalize "my_box" = Name.normalize "my__box" := by decide +kernel
  refine ⟨nested, there, (reads 1 "my_box").1 ⟨same, [], [0], by decide +kernel, by simp⟩, ?_⟩
  refine (reads 0 "my_box").2 fun both => ?_
  obtain ⟨nearer, farther, chain, -⟩ := both.2
  have outer : s.chain 0 = [0] := by decide +kernel
  have mem : (1 : ScopeId) ∈ s.chain 0 := by
    rw [chain]
    simp
  rw [outer] at mem
  exact absurd mem (by decide)

end Scopes
end Stylesheet
