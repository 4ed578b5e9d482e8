/-
# The tree of scopes

What the operations on scopes do to one scope, and the shape that all scopes have
together.  In a store where a scope is made after the scopes around it (`Scopes.Nested`), the
scopes around a scope go on as the scopes around each of them
(`Scopes.Nested.chain_of_chain_eq`).  `Scopes.Reachable` are the stores that the operations
make out of nothing, where a mixin or a function is only ever put into the scope it closes
over: there every definition is at home, too (`Scopes.Reachable.wellFormed`).
-/

import Stylesheet.Scope
import Mathlib.Data.List.Basic

namespace Stylesheet

namespace Table

variable {α : Type}

@[simp] theorem get?_nil (name : String) : get? ([] : Table α) name = none := rfl

/-- A table is searched from its first entry on. -/
theorem get?_cons (k : String) (v : α) (t : Table α) (name : String) :
    get? ((k, v) :: t) name = if name = k then some v else get? t name := by
  rw [get?, get?, List.lookup_cons]
  by_cases h : name = k
  · simp [h]
  · simp [h, beq_false_of_ne h]

@[simp] theorem get?_set_self (t : Table α) (name : String) (v : α) :
    (t.set name v).get? name = some v := by
  induction t with
  | nil => simp [set, get?_cons]
  | cons e t ih =>
    obtain ⟨k, u⟩ := e
    rw [set]
    split
    · simp [get?_cons, *]
    · rw [get?_cons, if_neg (Ne.symm ‹_›), ih]

/-- A name that is set does not matter to other names. -/
theorem get?_set_of_ne {name other : String} (h : other ≠ name) (t : Table α) (v : α) :
    (t.set name v).get? other = t.get? other := by
  induction t with
  | nil => simp [set, get?_cons, h]
  | cons e t ih =>
    obtain ⟨k, u⟩ := e
    rw [set]
    split
    · subst k
      rw [get?_cons, get?_cons, if_neg h, if_neg h]
    · rw [get?_cons, get?_cons, ih]

/-- What is found after a name has been set is what it has been set to, or what was there. -/
theorem get?_set (t : Table α) (name other : String) (v : α) :
    (t.set name v).get? other = if other = name then some v else t.get? other := by
  split
  · subst other
    exact get?_set_self t name v
  · exact get?_set_of_ne ‹_› t v

/-- What holds of everything in a table holds of it with one more thing. -/
theorem all_set {t : Table α} {p : α → Prop} (h : ∀ name v, t.get? name = some v → p v)
    {name : String} {v : α} (hv : p v) : ∀ other u, (t.set name v).get? other = some u → p u := by
  intro other u e
  rw [get?_set] at e
  split at e
  · exact Option.some.inj e ▸ hv
  · exact h other u e

end Table

namespace Scopes

variable {s : Scopes}

@[simp] theorem size_modify (s : Scopes) (i : ScopeId) (f : Scope → Scope) :
    (s.modify i f).all.size = s.all.size := by
  simp [modify]

/-- There is nothing in a scope that there is not. -/
theorem get_of_size_le {i : Nat} (h : s.all.size ≤ i) : s.get i = {} := by
  simp [get, Array.getD_eq_getD_getElem?, h]

/-- A scope that is changed is what the change makes of it. -/
theorem get_modify_self {i : Nat} (h : i < s.all.size) (f : Scope → Scope) :
    (s.modify i f).get i = f (s.get i) := by
  simp [get, modify, Array.getD_eq_getD_getElem?, h, Array.getElem_modify]

/-- A change of one scope leaves the others as they are. -/
theorem get_modify_of_ne {i j : Nat} (h : j ≠ i) (f : Scope → Scope) :
    (s.modify i f).get j = s.get j := by
  simp [get, modify, Array.getD_eq_getD_getElem?, Array.getElem?_modify, Ne.symm h]

/-- There is nothing to change in a scope that there is not. -/
theorem modify_of_size_le {i : Nat} (h : s.all.size ≤ i) (f : Scope → Scope) :
    s.modify i f = s := by
  obtain ⟨all⟩ := s
  simp only [modify, mk.injEq]
  exact Array.ext (by simp) fun j hj _ => by
    rw [Array.getElem_modify, if_neg]
    rintro rfl
    simp at hj
    exact absurd hj (Nat.not_lt.2 h)

/-- After a change, a scope is as it was or the one that has been changed. -/
theorem get_modify (s : Scopes) (i : Nat) (f : Scope → Scope) (j : Nat) :
    (s.modify i f).get j = s.get j ∨ j = i ∧ (s.modify i f).get j = f (s.get i) := by
  by_cases e : j = i
  · subst e
    rcases Nat.lt_or_ge j s.all.size with hj | hj
    · exact .inr ⟨rfl, get_modify_self hj f⟩
    · exact .inl (by rw [modify_of_size_le hj])
  · exact .inl (get_modify_of_ne e f)

/-- What a change keeps of the scope that it is made to, it keeps of every scope. -/
theorem get_modify_field {β : Type} (p : Scope → β) {i : Nat} {f : Scope → Scope}
    (h : p (f (s.get i)) = p (s.get i)) (j : Nat) : p ((s.modify i f).get j) = p (s.get j) := by
  rcases s.get_modify i f j with e | ⟨rfl, e⟩
  · rw [e]
  · rw [e, h]

/-- What holds of all mixins holds of them with one more. -/
theorem all_setMixin {p : Definition → Prop}
    (h : ∀ j x e, (s.get j).mixins.get? x = some e → p e) (i : ScopeId) (name : String)
    {d : Definition} (hd : p d) :
    ∀ j x e, ((s.setMixin i name d).get j).mixins.get? x = some e → p e := by
  intro j
  rw [setMixin]
  rcases s.get_modify i _ j with same | ⟨rfl, new⟩
  · rw [same]
    exact h j
  · rw [new]
    exact Table.all_set (h j) hd

/-- What holds of all functions holds of them with one more. -/
theorem all_setFunction {p : Definition → Prop}
    (h : ∀ j x e, (s.get j).functions.get? x = some e → p e) (i : ScopeId) (name : String)
    {d : Definition} (hd : p d) :
    ∀ j x e, ((s.setFunction i name d).get j).functions.get? x = some e → p e := by
  intro j
  rw [setFunction]
  rcases s.get_modify i _ j with same | ⟨rfl, new⟩
  · rw [same]
    exact h j
  · rw [new]
    exact Table.all_set (h j) hd

/-- A mixin that is defined leaves the functions as they are. -/
theorem functions_setMixin (s : Scopes) (i : ScopeId) (name : String) (d : Definition)
    (j : ScopeId) : ((s.setMixin i name d).get j).functions = (s.get j).functions :=
  get_modify_field (·.functions) rfl j

/-- A function that is defined leaves the mixins as they are. -/
theorem mixins_setFunction (s : Scopes) (i : ScopeId) (name : String) (d : Definition)
    (j : ScopeId) : ((s.setFunction i name d).get j).mixins = (s.get j).mixins :=
  get_modify_field (·.mixins) rfl j

@[simp] theorem size_add (s : Scopes) (parent : Option ScopeId) (options : Option Options)
    (owns : Option Bool) : (s.add parent options owns).2.all.size = s.all.size + 1 := by
  simp [add]

/-- A new scope leaves those that are there as they are. -/
theorem get_add_of_lt {i : Nat} (h : i < s.all.size) (parent : Option ScopeId)
    (options : Option Options) (owns : Option Bool) :
    (s.add parent options owns).2.get i = s.get i := by
  simp [get, add, Array.getD_eq_getD_getElem?, Array.getElem?_push, Nat.ne_of_lt h]

/-- A new scope is inside its parent and all that is around it. -/
theorem get_add_self (s : Scopes) (p : ScopeId) (options : Option Options)
    (owns : Option Bool) :
    (s.add (some p) options owns).2.get s.all.size =
      { ancestors := p :: (s.get p).ancestors
        options := options.getD (s.get p).options
        ownsBuffers := owns.getD false } := by
  simp [get, add, Array.getD_eq_getD_getElem?]

/-- A new scope without a parent has nothing around it. -/
theorem get_add_root (s : Scopes) (options : Option Options) (owns : Option Bool) :
    (s.add none options owns).2.get s.all.size =
      { options := options.getD {}, ownsBuffers := owns.getD true } := by
  simp [get, add, Array.getD_eq_getD_getElem?]

/-- What a new scope has as every scope that is not there, it brings nothing new of. -/
theorem get_add_field {β : Type} (p : Scope → β)
    (h : ∀ ancestors options owns, p { ancestors, options, ownsBuffers := owns } = p {})
    (parent : Option ScopeId) (options : Option Options) (owns : Option Bool) (j : Nat) :
    p ((s.add parent options owns).2.get j) = p (s.get j) := by
  rcases Nat.lt_trichotomy j s.all.size with hj | rfl | hj
  · rw [get_add_of_lt hj]
  · rw [get_of_size_le (Nat.le_refl s.all.size)]
    cases parent with
    | none => rw [get_add_root, h]
    | some q => rw [get_add_self, h]
  · rw [get_of_size_le (Nat.le_of_lt hj), get_of_size_le (by rw [size_add]; exact hj)]

/-! ### Scopes around scopes -/

/-- The scopes around a scope are its parent and the scopes around that, and the parent was
made before it. -/
def Nested (s : Scopes) : Prop :=
  ∀ i : Nat, (s.get i).ancestors = [] ∨
    ∃ p : Nat, p < i ∧ p < s.all.size ∧ (s.get i).ancestors = s.chain p

/-- A scope is in its own chain. -/
theorem mem_chain_self (s : Scopes) (i : ScopeId) : i ∈ s.chain i :=
  List.mem_cons_self

namespace Nested

/-- A store without scopes is nested. -/
theorem empty : Nested {} :=
  fun i => .inl (by rw [get_of_size_le (Nat.zero_le i)])

/-- A new scope inside one that is there keeps a store nested. -/
theorem add (h : s.Nested) {parent : Option ScopeId}
    (inside : ∀ p, parent = some p → p < s.all.size) (options : Option Options)
    (owns : Option Bool) : (s.add parent options owns).2.Nested := by
  have old {i : Nat} (hi : i < s.all.size) := get_add_of_lt hi parent options owns
  intro i
  rcases Nat.lt_trichotomy i s.all.size with hi | rfl | hi
  · rw [old hi]
    rcases h i with e | ⟨p, hp, hs, e⟩
    · exact .inl e
    · refine .inr ⟨p, hp, by rw [size_add]; omega, ?_⟩
      rw [e, chain, chain, old hs]
  · cases parent with
    | none => exact .inl (by rw [get_add_root])
    | some p =>
      have hp := inside p rfl
      refine .inr ⟨p, hp, by rw [size_add]; exact Nat.lt_succ_of_lt hp, ?_⟩
      rw [get_add_self, chain, old hp]
  · exact .inl (by rw [get_of_size_le (by rw [size_add]; exact hi)])

/-- A change of one scope keeps the scopes around scopes if it keeps those around it. -/
theorem modify (h : s.Nested) (i : ScopeId) {f : Scope → Scope}
    (ancestors : ∀ a, (f a).ancestors = a.ancestors) : (s.modify i f).Nested := by
  have around (j : ScopeId) : ((s.modify i f).get j).ancestors = (s.get j).ancestors :=
    get_modify_field (·.ancestors) (ancestors _) j
  have chains (j : ScopeId) : (s.modify i f).chain j = s.chain j := by
    rw [chain, chain, around]
  intro j
  rw [around]
  rcases h j with e | ⟨p, hp, hs, e⟩
  · exact .inl e
  · exact .inr ⟨p, hp, by rwa [size_modify], by rw [e, chains]⟩

/-- A name that is declared keeps a store nested. -/
theorem declareBuffer (h : s.Nested) (i : ScopeId) (name : String) :
    (s.declareBuffer i name).Nested := by
  unfold Scopes.declareBuffer
  split
  · exact h
  · exact h.modify i fun _ => rfl

/-- The chain of `i` goes on from a scope in it as the chain of that scope. -/
theorem chain_of_chain_eq (h : s.Nested) {i k : Nat} {before rest : List ScopeId}
    (e : s.chain i = before ++ k :: rest) : s.chain k = k :: rest := by
  induction i using Nat.strongRecOn generalizing before with
  | _ i ih =>
    cases before with
    | nil =>
      obtain ⟨rfl, rfl⟩ := List.cons.inj e
      rfl
    | cons j before =>
      have above : (s.get i).ancestors = before ++ k :: rest := (List.cons.inj e).2
      rcases h i with none | ⟨p, hp, -, around⟩
      · rw [none] at above
        exact absurd above.symm (by simp)
      · exact ih p hp (around.symm.trans above)

/-- The scopes around a scope in the chain of `i` are in that chain too. -/
theorem chain_subset (h : s.Nested) {i j : Nat} (hj : j ∈ s.chain i) :
    s.chain j ⊆ s.chain i := by
  obtain ⟨before, rest, e⟩ := List.append_of_mem hj
  rw [h.chain_of_chain_eq e, e]
  exact List.subset_append_right before _

/-- What is around a scope has been made before it and is there. -/
theorem lt_of_mem_ancestors (h : s.Nested) {i j : Nat} (hj : j ∈ (s.get i).ancestors) :
    j < i ∧ j < s.all.size := by
  induction i using Nat.strongRecOn with
  | _ i ih =>
    rcases h i with e | ⟨p, hp, hs, e⟩
    · rw [e] at hj
      cases hj
    · rw [e] at hj
      rcases List.mem_cons.1 hj with rfl | hj
      · exact ⟨hp, hs⟩
      · exact ⟨Nat.lt_trans (ih p hp hj).1 hp, (ih p hp hj).2⟩

/-- What is in the chain of a scope that is there is there. -/
theorem lt_size_of_mem_chain (h : s.Nested) {i j : Nat} (hi : i < s.all.size)
    (hj : j ∈ s.chain i) : j < s.all.size := by
  rcases List.mem_cons.1 hj with rfl | hj
  · exact hi
  · exact (h.lt_of_mem_ancestors hj).2

end Nested

/-! ### Stores that operations make -/

/-- The stores that operations make out of nothing.  A mixin or a function is put only
into the scope that it closes over. -/
inductive Reachable : Scopes → Prop where
  | empty : Reachable {}
  | add {s : Scopes} {parent : Option ScopeId} (options : Option Options) (owns : Option Bool)
      (h : Reachable s) (inside : ∀ p, parent = some p → p < s.all.size) :
      Reachable (s.add parent options owns).2
  | setLocalVar {s : Scopes} (i : ScopeId) (name : String) (value : Value) (h : Reachable s) :
      Reachable (s.setLocalVar i name value)
  | setMixin {s : Scopes} {d : Definition} (name : String) (h : Reachable s) :
      Reachable (s.setMixin d.scope name d)
  | setFunction {s : Scopes} {d : Definition} (name : String) (h : Reachable s) :
      Reachable (s.setFunction d.scope name d)
  | setSelector {s : Scopes} (i : ScopeId) (selector : Option (List String))
      (h : Reachable s) : Reachable (s.setSelector i selector)
  | declareBuffer {s : Scopes} (i : ScopeId) (name : String) (h : Reachable s) :
      Reachable (s.declareBuffer i name)
  | appendBuffer {s : Scopes} (i : ScopeId) (name : String) (group : GroupId)
      (h : Reachable s) : Reachable (s.appendBuffer i name group)

/-- The shape of a store: a scope is made after the scopes around it, and a definition is
in the scope that it closes over. -/
structure WellFormed (s : Scopes) : Prop where
  /-- The scopes around a scope are its parent and the scopes around that. -/
  ancestors : ∀ i : Nat, (s.get i).ancestors = [] ∨
    ∃ p : Nat, p < i ∧ p < s.all.size ∧ (s.get i).ancestors = s.chain p
  /-- A mixin closes over the scope it is in. -/
  mixins : ∀ i name d, (s.get i).mixins.get? name = some d → d.scope = i
  /-- A function closes over the scope it is in. -/
  functions : ∀ i name d, (s.get i).functions.get? name = some d → d.scope = i

/-- A store that is well formed is nested. -/
theorem WellFormed.nested (h : s.WellFormed) : s.Nested :=
  h.ancestors

/-- A store without scopes is well formed. -/
theorem wellFormed_empty : WellFormed {} where
  ancestors := Nested.empty
  mixins i name d h := by rw [get_of_size_le (Nat.zero_le i)] at h; cases h
  functions i name d h := by rw [get_of_size_le (Nat.zero_le i)] at h; cases h

/-- A new scope inside one that is there keeps a store well formed. -/
theorem WellFormed.add (h : s.WellFormed) {parent : Option ScopeId}
    (inside : ∀ p, parent = some p → p < s.all.size) (options : Option Options)
    (owns : Option Bool) : (s.add parent options owns).2.WellFormed where
  ancestors := h.nested.add inside options owns
  mixins i name d hd := by
    rw [get_add_field (·.mixins) fun _ _ _ => rfl] at hd
    exact h.mixins i name d hd
  functions i name d hd := by
    rw [get_add_field (·.functions) fun _ _ _ => rfl] at hd
    exact h.functions i name d hd

/-- A change of one scope keeps the shape if it keeps the scopes around it and brings no
definition from elsewhere. -/
theorem WellFormed.modify (h : s.WellFormed) (i : ScopeId) {f : Scope → Scope}
    (ancestors : ∀ a, (f a).ancestors = a.ancestors)
    (mixins : ∀ name d, (f (s.get i)).mixins.get? name = some d →
      (s.get i).mixins.get? name = some d ∨ d.scope = i)
    (functions : ∀ name d, (f (s.get i)).functions.get? name = some d →
      (s.get i).functions.get? name = some d ∨ d.scope = i) :
    (s.modify i f).WellFormed where
  ancestors := h.nested.modify i ancestors
  mixins j name d hd := by
    rcases s.get_modify i f j with e | ⟨rfl, e⟩
    · rw [e] at hd
      exact h.mixins j name d hd
    · rw [e] at hd
      exact (mixins name d hd).elim (h.mixins j name d) id
  functions j name d hd := by
    rcases s.get_modify i f j with e | ⟨rfl, e⟩
    · rw [e] at hd
      exact h.functions j name d hd
    · rw [e] at hd
      exact (functions name d hd).elim (h.functions j name d) id

/-- A name that is declared keeps a store well formed. -/
theorem WellFormed.declareBuffer (h : s.WellFormed) (i : ScopeId) (name : String) :
    (s.declareBuffer i name).WellFormed := by
  unfold Scopes.declareBuffer
  split
  · exact h
  · exact h.modify i (fun _ => rfl) (fun _ _ => .inl) (fun _ _ => .inl)

/-- **A store that operations make is well formed.** -/
theorem Reachable.wellFormed (h : s.Reachable) : s.WellFormed := by
  induction h with
  | empty => exact wellFormed_empty
  | add options owns _ inside ih => exact ih.add inside options owns
  | setLocalVar i name value _ ih =>
    exact ih.modify i (fun _ => rfl) (fun _ _ => .inl) (fun _ _ => .inl)
  | @setMixin s d name _ ih =>
    refine ih.modify d.scope (fun _ => rfl) (fun other e he => ?_) (fun _ _ => .inl)
    rw [Table.get?_set] at he
    split at he
    · exact .inr (congrArg Definition.scope (Option.some.inj he)).symm
    · exact .inl he
  | @setFunction s d name _ ih =>
    refine ih.modify d.scope (fun _ => rfl) (fun _ _ => .inl) (fun other e he => ?_)
    rw [Table.get?_set] at he
    split at he
    · exact .inr (congrArg Definition.scope (Option.some.inj he)).symm
    · exact .inl he
  | setSelector i selector _ ih =>
    exact ih.modify i (fun _ => rfl) (fun _ _ => .inl) (fun _ _ => .inl)
  | declareBuffer i name _ ih => exact ih.declareBuffer i name
  | appendBuffer i name group _ ih =>
    exact (ih.declareBuffer i name).modify _ (fun _ => rfl) (fun _ _ => .inl)
      (fun _ _ => .inl)

namespace WellFormed

/-- What is around a scope in a chain is in the chain. -/
theorem chain_subset (h : s.WellFormed) {i j : Nat} (hj : j ∈ s.chain i) :
    s.chain j ⊆ s.chain i :=
  h.nested.chain_subset hj

/-- What is in the chain of a scope that is there is there, in a store that is well formed. -/
theorem lt_size_of_mem_chain (h : s.WellFormed) {i j : Nat} (hi : i < s.all.size)
    (hj : j ∈ s.chain i) : j < s.all.size :=
  h.nested.lt_size_of_mem_chain hi hj

end WellFormed

/-! ### What is found in the scopes around a scope -/

variable {i : Nat}

/-- What is found is in a scope of the chain. -/
theorem exists_of_find? {α : Type} {f : Scope → Option α} {a : α} (h : s.find? i f = some a) :
    ∃ j ∈ s.chain i, f (s.get j) = some a := by
  obtain ⟨l₁, j, l₂, e, ha, -⟩ := List.findSome?_eq_some_iff.1 h
  exact ⟨j, by rw [e]; simp, ha⟩

/-- A mixin that is found is in a scope of the chain. -/
theorem exists_of_mixin? {name : String} {d : Definition} (h : s.mixin? i name = some d) :
    ∃ j ∈ s.chain i, (s.get j).mixins.get? (Name.normalize name) = some d :=
  exists_of_find? (f := fun a => a.mixins.get? (Name.normalize name)) h

/-- A function that is found is in a scope of the chain. -/
theorem exists_of_function? {name : String} {d : Definition} (h : s.function? i name = some d) :
    ∃ j ∈ s.chain i, (s.get j).functions.get? (Name.normalize name) = some d :=
  exists_of_find? (f := fun a => a.functions.get? (Name.normalize name)) h

/-- A mixin that is found closes over a scope of the chain. -/
theorem WellFormed.scope_mem_of_mixin? (hs : s.WellFormed) {name : String} {d : Definition}
    (h : s.mixin? i name = some d) : d.scope ∈ s.chain i := by
  obtain ⟨j, hj, e⟩ := exists_of_mixin? h
  rwa [hs.mixins j _ d e]

/-- A function that is found closes over a scope of the chain. -/
theorem WellFormed.scope_mem_of_function? (hs : s.WellFormed) {name : String}
    {d : Definition} (h : s.function? i name = some d) : d.scope ∈ s.chain i := by
  obtain ⟨j, hj, e⟩ := exists_of_function? h
  rwa [hs.functions j _ d e]

/-- What is found is found from a scope of the store. -/
theorem lt_size_of_find? {α : Type} {f : Scope → Option α} {a : α} (empty : f {} = none)
    (h : s.find? i f = some a) : i < s.all.size := by
  by_contra out
  have blank := get_of_size_le (Nat.le_of_not_lt out)
  obtain ⟨j, hj, e⟩ := exists_of_find? h
  rw [chain, blank, List.mem_singleton] at hj
  rw [hj, blank, empty] at e
  cases e

/-- The scope that a mixin closes over is there. -/
theorem WellFormed.scope_lt_of_mixin? (hs : s.WellFormed) {name : String} {d : Definition}
    (h : s.mixin? i name = some d) : (d.scope : Nat) < s.all.size :=
  hs.lt_size_of_mem_chain
    (lt_size_of_find? (f := fun a => a.mixins.get? (Name.normalize name)) rfl h)
    (hs.scope_mem_of_mixin? h)

/-- The scope that a function closes over is there. -/
theorem WellFormed.scope_lt_of_function? (hs : s.WellFormed) {name : String} {d : Definition}
    (h : s.function? i name = some d) : (d.scope : Nat) < s.all.size :=
  hs.lt_size_of_mem_chain
    (lt_size_of_find? (f := fun a => a.functions.get? (Name.normalize name)) rfl h)
    (hs.scope_mem_of_function? h)

end Scopes
end Stylesheet
