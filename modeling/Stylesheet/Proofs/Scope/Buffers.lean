/-
# The entries of buffers

What is found under a name is the entry of the nearest scope that has one
(`Scopes.buffer?_eq`).  Declaring a name adds an empty entry and changes none, so every
`Scopes.entry` is the same afterwards; appending a group makes exactly one of them longer
(`Scopes.buffers_appendBuffer`).
-/

import Stylesheet.Proofs.Scope.Tree
import Mathlib.Data.List.Find

namespace Stylesheet
namespace Scopes

variable {s : Scopes} {i k : Nat} {name : String}

/-- The groups that a scope has collected under a name. -/
def entry (s : Scopes) (i : ScopeId) (name : String) : List GroupId :=
  ((s.get i).buffers.get? name).getD []

/-- The nearest scope with a property is in the chain and has it. -/
theorem mem_chain_of_nearest? {p : Scope → Bool} {k : ScopeId} (h : s.nearest? i p = some k) :
    k ∈ s.chain i ∧ p (s.get k) :=
  ⟨List.mem_of_find?_eq_some h,
    List.find?_some (p := fun j => p (s.get j)) (l := s.chain i) h⟩

/-- Where no scope holds an entry, none in the chain has it. -/
theorem buffers_get?_of_bufferHolder?_eq_none
    (h : s.bufferHolder? k name = none) {j : Nat} (hj : j ∈ s.chain k) :
    (s.get j).buffers.get? name = none :=
  Option.not_isSome_iff_eq_none.1 (List.find?_eq_none.1 h j hj)

/-- An entry in the chain has a holder. -/
theorem bufferHolder?_isSome_of_get? {j k : Nat} {name : String} (hj : j ∈ s.chain k)
    (h : ((s.get j).buffers.get? name).isSome) : (s.bufferHolder? k name).isSome :=
  List.find?_isSome.2 ⟨j, hj, h⟩

/-- A name that has been declared is kept where it was, or by the scope itself. -/
theorem bufferHolder?_declareBuffer (hk : k < s.all.size) (name : String) :
    (s.declareBuffer k name).bufferHolder? k name =
      some ((s.bufferHolder? k name).getD k) := by
  unfold declareBuffer
  rcases e : s.bufferHolder? k name with _ | h
  · dsimp only
    rw [bufferHolder?, nearest?, chain, List.find?_cons_of_pos]
    · rfl
    · rw [get_modify_self hk, Table.get?_set_self]
      rfl
  · exact e

/-- Searches for values that are the same on a list find the same. -/
theorem findSome?_congr {α β : Type} {f g : α → Option β} {l : List α} (h : ∀ a ∈ l, f a = g a) :
    l.findSome? f = l.findSome? g := by
  induction l with
  | nil => rfl
  | cons a l ih =>
    obtain ⟨ha, hl⟩ := List.forall_mem_cons.1 h
    rw [List.findSome?_cons, List.findSome?_cons, ha, ih hl]

/-- The first value is that of the first element that has one. -/
theorem findSome?_eq_find?_bind {α β : Type} (f : α → Option β) (l : List α) :
    l.findSome? f = (l.find? fun a => (f a).isSome).bind f := by
  induction l with
  | nil => rfl
  | cons a l ih =>
    rw [List.findSome?_cons, List.find?_cons]
    cases e : f a with
    | none => exact ih
    | some b => exact e.symm

/-- What is found under a name is what its holder has. -/
theorem buffer?_eq (s : Scopes) (i : ScopeId) (name : String) :
    s.buffer? i name = (s.bufferHolder? i name).bind fun j => (s.get j).buffers.get? name :=
  findSome?_eq_find?_bind _ _

/-- A declaration changes no entry, but makes an empty one if there is none to be found. -/
theorem buffers_declareBuffer (s : Scopes) (k : ScopeId) (name : String) (j : ScopeId)
    (x : String) :
    ((s.declareBuffer k name).get j).buffers.get? x = (s.get j).buffers.get? x ∨
      j = k ∧ x = name ∧ s.bufferHolder? k name = none ∧
        ((s.declareBuffer k name).get j).buffers.get? x = some [] := by
  unfold declareBuffer
  rcases e : s.bufferHolder? k name with _ | h
  · rcases s.get_modify k (fun a => { a with buffers := a.buffers.set name [] }) j with
      old | ⟨rfl, new⟩
    · exact .inl (congrArg (·.buffers.get? x) old)
    · by_cases same : x = name
      · subst same
        refine .inr ⟨rfl, rfl, rfl, ?_⟩
        rw [new, Table.get?_set_self]
      · refine .inl ?_
        rw [new, Table.get?_set_of_ne same]
  · exact .inl rfl

/-- A declaration adds nothing to an entry. -/
theorem entry_declareBuffer (s : Scopes) (k : ScopeId) (name : String) (j : ScopeId)
    (x : String) : (s.declareBuffer k name).entry j x = s.entry j x := by
  rcases s.buffers_declareBuffer k name j x with same | ⟨rfl, rfl, nowhere, made⟩
  · rw [entry, entry, same]
  · have absent := buffers_get?_of_bufferHolder?_eq_none nowhere (mem_chain_self s j)
    rw [entry, entry, made, absent]
    rfl

/-- A declaration makes no scope. -/
theorem size_declareBuffer (s : Scopes) (k : ScopeId) (name : String) :
    (s.declareBuffer k name).all.size = s.all.size := by
  unfold declareBuffer
  split
  · rfl
  · exact size_modify s k _

/-- A group that is put into an entry makes no scope. -/
theorem size_appendBuffer (s : Scopes) (k : ScopeId) (name : String) (g : GroupId) :
    (s.appendBuffer k name g).all.size = s.all.size :=
  (size_modify _ _ _).trans (s.size_declareBuffer k name)

/-- Changing an entry that is there does not change which scopes have one. -/
theorem bufferHolder?_modify {h : Nat} (there : ((s.get h).buffers.get? name).isSome)
    {f : Scope → Scope} (around : ∀ a, (f a).ancestors = a.ancestors)
    (set : ((f (s.get h)).buffers.get? name).isSome) (k : ScopeId) :
    (s.modify h f).bufferHolder? k name = s.bufferHolder? k name := by
  have chains : (s.modify h f).chain k = s.chain k := by
    rw [chain, chain, get_modify_field (·.ancestors) (around _)]
  rw [bufferHolder?, bufferHolder?, nearest?, nearest?, chains]
  exact List.find?_congr fun j _ =>
    get_modify_field (fun a => (a.buffers.get? name).isSome) (set.trans there.symm) j

/-- A group is appended where the name is kept, or in the scope itself. -/
theorem appendBuffer_eq (hk : k < s.all.size) (name : String) (g : GroupId) :
    s.appendBuffer k name g =
      (s.declareBuffer k name).modify ((s.bufferHolder? k name).getD k) fun a =>
        { a with buffers := a.buffers.set name (((a.buffers.get? name).getD []) ++ [g]) } := by
  simp only [appendBuffer, bufferHolder?_declareBuffer hk, Option.getD_some]

/-- A name under which a group is appended is kept where it was, or by the scope itself. -/
theorem bufferHolder?_appendBuffer (hk : k < s.all.size) (name : String) (g : GroupId) :
    (s.appendBuffer k name g).bufferHolder? k name =
      some ((s.bufferHolder? k name).getD k) := by
  have declared := bufferHolder?_declareBuffer hk name
  obtain ⟨-, there⟩ := mem_chain_of_nearest? declared
  rw [appendBuffer_eq hk, bufferHolder?_modify there (by intro; rfl), declared]
  rw [Table.get?_set_self]
  rfl

/-- **A group is appended to exactly one entry**, at its end; every other entry of the
store is as it was. -/
theorem buffers_appendBuffer (hs : s.Nested) (hk : k < s.all.size) (name : String)
    (g : GroupId) (j : ScopeId) (x : String) :
    ((s.appendBuffer k name g).get j).buffers.get? x =
      if j = (s.bufferHolder? k name).getD k ∧ x = name then
        some (s.entry ((s.bufferHolder? k name).getD k) name ++ [g])
      else (s.get j).buffers.get? x := by
  have declared := bufferHolder?_declareBuffer hk name
  rw [appendBuffer_eq hk, ← s.entry_declareBuffer k name]
  have apart (ne : ¬ (j = (s.bufferHolder? k name).getD k ∧ x = name)) :
      ((s.declareBuffer k name).get j).buffers.get? x = (s.get j).buffers.get? x := by
    refine (s.buffers_declareBuffer k name j x).resolve_right ?_
    rintro ⟨rfl, rfl, nowhere, -⟩
    exact ne ⟨by rw [nowhere]; rfl, rfl⟩
  generalize (s.bufferHolder? k name).getD k = h at declared apart ⊢
  have hh : h < (s.declareBuffer k name).all.size :=
    (hs.declareBuffer k name).lt_size_of_mem_chain (by rwa [size_declareBuffer])
      (mem_chain_of_nearest? declared).1
  by_cases here : j = h ∧ x = name
  · obtain ⟨rfl, rfl⟩ := here
    rw [if_pos ⟨rfl, rfl⟩, get_modify_self hh, Table.get?_set_self, entry]
  · rw [if_neg here, ← apart here]
    by_cases e : j = h
    · subst e
      rw [get_modify_self hh, Table.get?_set_of_ne fun ex => here ⟨rfl, ex⟩]
    · rw [get_modify_of_ne e]

/-- A group is appended to the entry that is found afterwards. -/
theorem appendBuffer_spec (hs : s.Nested) (hk : k < s.all.size) (name : String)
    (g : GroupId) : ∃ h : Nat, (s.appendBuffer k name g).bufferHolder? k name = some h ∧
      ∀ j x, (s.appendBuffer k name g).entry j x =
        s.entry j x ++ if j = h ∧ x = name then [g] else [] := by
  refine ⟨_, bufferHolder?_appendBuffer hk name g, fun j x => ?_⟩
  rw [entry, buffers_appendBuffer hs hk]
  split
  · rename_i here
    rw [here.1, here.2]
    rfl
  · exact (List.append_nil _).symm

end Scopes
end Stylesheet
