/-
# Stores only grow

A `Scopes.Operation` is a request to one scope of a store: for a new scope inside it, a
variable, a definition, selectors, the declaration of a buffer or a group under its name.
`Scopes.perform` answers it; of a scope that is not there nothing can be asked.

Whatever is asked of whichever scope, in whatever order, a name that is kept somewhere stays
kept there, and its entry only gets longer (`Scopes.Keeping`).  No scope nearer than the
keeper can get the name: it would have to declare it, and from there the keeper is found
(`Scopes.Nested.chain_of_chain_eq`).
-/

import Stylesheet.Proofs.Scope.Buffers

namespace Stylesheet
namespace Scopes

/-- A request to a scope. -/
inductive Operation where
  /-- A new scope inside it. -/
  | child (i : ScopeId) (options : Option Options) (ownsBuffers : Option Bool)
  /-- A value for the nearest variable of a name. -/
  | setVar (i : ScopeId) (name : String) (value : Value)
  /-- A value for its own variable of a name. -/
  | setLocalVar (i : ScopeId) (name : String) (value : Value)
  /-- A mixin, from wherever it is. -/
  | setMixin (i : ScopeId) (name : String) (d : Definition)
  /-- A function, from wherever it is. -/
  | setFunction (i : ScopeId) (name : String) (d : Definition)
  /-- Its selectors. -/
  | setSelector (i : ScopeId) (selector : Option (List String))
  /-- An entry of a name. -/
  | declareBuffer (i : ScopeId) (name : String)
  /-- A group under a name. -/
  | appendBuffer (i : ScopeId) (name : String) (group : GroupId)

namespace Operation

/-- The scope that is asked. -/
def scope : Operation → ScopeId
  | child i .. | setVar i .. | setLocalVar i .. | setMixin i .. | setFunction i ..
  | setSelector i _ | declareBuffer i _ | appendBuffer i .. => i

/-- The store after a request. -/
def apply (s : Scopes) : Operation → Scopes
  | child i options ownsBuffers => (s.add (some i) options ownsBuffers).2
  | setVar i name value => s.setVar i name value
  | setLocalVar i name value => s.setLocalVar i name value
  | setMixin i name d => s.setMixin i name d
  | setFunction i name d => s.setFunction i name d
  | setSelector i selector => s.setSelector i selector
  | declareBuffer i name => s.declareBuffer i name
  | appendBuffer i name group => s.appendBuffer i name group

end Operation

/-- The store after a request to one of its scopes; others cannot be asked. -/
def perform (s : Scopes) (op : Operation) : Scopes :=
  if op.scope < s.all.size then op.apply s else s

/-- The store after some requests, one after the other. -/
def performAll (s : Scopes) (ops : List Operation) : Scopes :=
  ops.foldl perform s

/-- A store with one scope, made with some options. -/
def single (options : Option Options) (ownsBuffers : Option Bool) : Scopes :=
  (add {} none options ownsBuffers).2

/-- Every name that is kept in the first store is kept by the same scope in the second one,
whose entry goes on from the one there was. -/
def Keeping (s s' : Scopes) : Prop :=
  ∀ (e : ScopeId) (name : String) (o : ScopeId) (groups : List GroupId),
    s.bufferHolder? e name = some o → (s.get o).buffers.get? name = some groups →
      s'.bufferHolder? e name = some o ∧
        ∃ more, (s'.get o).buffers.get? name = some (groups ++ more)

variable {s s' s'' : Scopes}

namespace Keeping

/-- A store that is left alone keeps its entries. -/
theorem refl (s : Scopes) : Keeping s s :=
  fun _ _ _ groups holder entry => ⟨holder, [], by rw [entry, List.append_nil]⟩

/-- Entries that are kept twice are kept. -/
theorem trans (h : Keeping s s') (k : Keeping s' s'') : Keeping s s'' := by
  intro e name o groups holder entry
  obtain ⟨holder', more, entry'⟩ := h e name o groups holder entry
  obtain ⟨holder'', others, entry''⟩ := k e name o _ holder' entry'
  exact ⟨holder'', more ++ others, by rw [entry'', List.append_assoc]⟩

/-- A change that leaves the places and the entries of scopes alone. -/
theorem modify (s : Scopes) (i : ScopeId) {f : Scope → Scope}
    (ancestors : ∀ a, (f a).ancestors = a.ancestors)
    (buffers : ∀ a, (f a).buffers = a.buffers) : Keeping s (s.modify i f) := by
  intro e name o groups holder entry
  have chains : (s.modify i f).chain e = s.chain e := by
    rw [chain, chain, get_modify_field (·.ancestors) (ancestors _)]
  have entries (j : ScopeId) : ((s.modify i f).get j).buffers = (s.get j).buffers :=
    get_modify_field (·.buffers) (buffers _) j
  refine ⟨?_, [], by rw [entries, entry, List.append_nil]⟩
  rw [bufferHolder?, nearest?, chains]
  simp only [entries]
  exact holder

/-- A new scope is around no scope that was there. -/
theorem add (hs : s.Nested) (parent : Option ScopeId) (options : Option Options)
    (owns : Option Bool) : Keeping s (s.add parent options owns).2 := by
  intro e name o groups holder entry
  have he : (e : Nat) < s.all.size := by
    refine lt_size_of_find? (f := fun a => a.buffers.get? name) (a := groups) rfl ?_
    exact (buffer?_eq s e name).trans (by rw [holder, Option.bind_some, entry])
  have old {j : Nat} (hj : j ∈ s.chain e) :
      (s.add parent options owns).2.get j = s.get j :=
    get_add_of_lt (hs.lt_size_of_mem_chain he hj) parent options owns
  obtain ⟨mem, -⟩ := mem_chain_of_nearest? holder
  refine ⟨?_, [], by rw [old mem, entry, List.append_nil]⟩
  have same : (s.add parent options owns).2.chain e = s.chain e := by
    rw [chain, chain, old (s.mem_chain_self e)]
  refine Eq.trans ?_ holder
  rw [bufferHolder?, bufferHolder?, nearest?, nearest?, same]
  exact List.find?_congr fun j hj => by rw [old hj]

/-- **A declaration shadows no entry.**  A scope nearer than the keeper of a name finds the
keeper, so it makes no entry of its own. -/
theorem declareBuffer (hs : s.Nested) (i : ScopeId) (name : String) :
    Keeping s (s.declareBuffer i name) := by
  intro e x o groups holder entry
  have keeps : ((s.declareBuffer i name).get o).buffers.get? x = some groups := by
    rcases s.buffers_declareBuffer i name o x with same | ⟨rfl, rfl, nowhere, -⟩
    · rw [same, entry]
    · rw [buffers_get?_of_bufferHolder?_eq_none nowhere (s.mem_chain_self o)] at entry
      cases entry
  refine ⟨?_, [], by rw [keeps, List.append_nil]⟩
  have chains : (s.declareBuffer i name).chain e = s.chain e := by
    unfold Scopes.declareBuffer
    split
    · rfl
    · rw [chain, chain, get_modify_field (·.ancestors) rfl]
  obtain ⟨there, before, after, split, none⟩ := List.find?_eq_some_iff_append.1 holder
  rw [bufferHolder?, nearest?, chains]
  refine List.find?_eq_some_iff_append.2 ⟨by rw [keeps]; rfl, before, after, split, ?_⟩
  intro j hj
  rcases s.buffers_declareBuffer i name j x with same | ⟨rfl, rfl, nowhere, -⟩
  · rw [same]
    exact none j hj
  · -- the chain of `j` goes on to the keeper, which has the name
    obtain ⟨first, rest, nearer⟩ := List.append_of_mem hj
    have through : s.chain e = first ++ j :: (rest ++ o :: after) := by
      rw [split, nearer]
      simp
    have onward : s.chain j = j :: (rest ++ o :: after) := hs.chain_of_chain_eq through
    have found : (s.bufferHolder? j x).isSome :=
      bufferHolder?_isSome_of_get? (j := o) (by rw [onward]; simp) there
    rw [nowhere] at found
    cases found

/-- A group is appended to an entry that is there once its name is declared. -/
theorem appendBuffer (hs : s.Nested) {i : Nat} (hi : i < s.all.size) (name : String)
    (g : GroupId) : Keeping s (s.appendBuffer i name g) := by
  refine (declareBuffer hs i name).trans ?_
  have declared := bufferHolder?_declareBuffer hi name
  obtain ⟨-, kept⟩ := mem_chain_of_nearest? declared
  rw [appendBuffer_eq hi]
  generalize (s.bufferHolder? i name).getD i = h at kept ⊢
  generalize s.declareBuffer i name = t at kept ⊢
  intro e x o groups holder entry
  by_cases same : x = name
  · subst same
    have found : (t.modify h fun a =>
        { a with buffers := a.buffers.set x (((a.buffers.get? x).getD []) ++ [g]) }).bufferHolder?
          e x = some o := by
      rw [bufferHolder?_modify kept (by intro; rfl), holder]
      rw [Table.get?_set_self]
      rfl
    refine ⟨found, ?_⟩
    rcases t.get_modify h (fun a =>
      { a with buffers := a.buffers.set x (((a.buffers.get? x).getD []) ++ [g]) }) o with
      old | ⟨rfl, new⟩
    · exact ⟨[], by rw [old, entry, List.append_nil]⟩
    · refine ⟨[g], ?_⟩
      rw [new, Table.get?_set_self, entry]
      rfl
  · have others (j : ScopeId) : ((t.modify h fun a =>
        { a with buffers := a.buffers.set name (((a.buffers.get? name).getD []) ++ [g]) }).get
          j).buffers.get? x = (t.get j).buffers.get? x :=
      get_modify_field (fun a => a.buffers.get? x) (Table.get?_set_of_ne same _ _) j
    refine ⟨?_, [], by rw [others, entry, List.append_nil]⟩
    rw [bufferHolder?, nearest?, chain, get_modify_field (·.ancestors) rfl]
    simp only [others]
    exact holder

end Keeping

/-! ### Requests -/

/-- A store with a single scope is nested. -/
theorem nested_single (options : Option Options) (owns : Option Bool) :
    (single options owns).Nested := by
  refine Nested.empty.add ?_ options owns
  rintro p ⟨⟩

/-- Every operation keeps a store nested. -/
theorem nested_perform (hs : s.Nested) (op : Operation) : (s.perform op).Nested := by
  unfold perform
  split
  · rename_i there
    cases op with
    | child i options owns => exact hs.add (fun p e => Option.some.inj e ▸ there) options owns
    | declareBuffer i name => exact hs.declareBuffer i name
    | appendBuffer i name g => exact (hs.declareBuffer i name).modify _ fun _ => rfl
    | _ => exact hs.modify _ fun _ => rfl
  · exact hs

/-- Every operation keeps what is in the entries. -/
theorem keeping_perform (hs : s.Nested) (op : Operation) : Keeping s (s.perform op) := by
  unfold perform
  split
  · rename_i there
    cases op with
    | child i options owns => exact .add hs (some i) options owns
    | declareBuffer i name => exact .declareBuffer hs i name
    | appendBuffer i name g => exact .appendBuffer hs there name g
    | _ => exact .modify s _ (fun _ => rfl) fun _ => rfl
  · exact .refl s

/-- Operations one after the other keep a store nested. -/
theorem nested_performAll (hs : s.Nested) (ops : List Operation) : (s.performAll ops).Nested := by
  induction ops generalizing s with
  | nil => exact hs
  | cons op ops ih => exact ih (nested_perform hs op)

/-- A run keeps what its first request keeps, and so on. -/
theorem keeping_performAll (hs : s.Nested) (ops : List Operation) :
    Keeping s (s.performAll ops) := by
  induction ops generalizing s with
  | nil => exact .refl s
  | cons op ops ih => exact (keeping_perform hs op).trans (ih (nested_perform hs op))

/-- **The store of buffers only grows, and names never change their keeper.**  Take any
store that requests make out of one scope.  A name that is found from a scope is found there
for good, kept by the same scope, with the groups there were first.  And a group that is
appended from any scope extends exactly one entry of the store by itself, at its end. -/
theorem buffers_only_grow (options : Option Options) (owns : Option Bool)
    (ops : List Operation) :
    let s := (single options owns).performAll ops
    (∀ (e : ScopeId) (name : String) (o : ScopeId) (groups : List GroupId),
      s.buffer? e name = some groups → s.bufferHolder? e name = some o →
      ∀ later : List Operation, ∃ more,
        (s.performAll later).buffer? e name = some (groups ++ more) ∧
          (s.performAll later).bufferHolder? e name = some o) ∧
    (∀ (e : ScopeId) (name : String) (g : GroupId), (e : Nat) < s.all.size →
      ∃ o : ScopeId, (s.appendBuffer e name g).bufferHolder? e name = some o ∧
        ∀ (j : ScopeId) (x : String), ((s.appendBuffer e name g).get j).buffers.get? x =
          if j = o ∧ x = name then some (s.entry o name ++ [g])
          else (s.get j).buffers.get? x) := by
  intro s
  have nested : s.Nested :=
    nested_performAll (nested_single options owns) ops
  refine ⟨fun e name o groups found holder later => ?_, fun e name g he => ?_⟩
  · rw [buffer?_eq, holder, Option.bind_some] at found
    obtain ⟨holder', more, entry'⟩ := keeping_performAll nested later e name o groups holder found
    exact ⟨more, by rw [buffer?_eq, holder', Option.bind_some, entry'], holder'⟩
  · exact ⟨_, bufferHolder?_appendBuffer he name g, buffers_appendBuffer nested he name g⟩

/-- A name that the outer one of two scopes keeps, with groups from both. -/
theorem buffers_only_grow_nested :
    let s := (single none none).performAll [.child 0 none (some true), .appendBuffer 0 "late" 0]
    s.buffer? 1 "late" = some [0] ∧ s.bufferHolder? 1 "late" = some 0 ∧
      ∃ more, (s.performAll [.declareBuffer 1 "late", .appendBuffer 1 "late" 1]).buffer? 1 "late" =
          some ([0] ++ more) ∧
        (s.performAll [.declareBuffer 1 "late", .appendBuffer 1 "late" 1]).bufferHolder? 1 "late" =
          some 0 := by
  intro s
  have found : s.buffer? 1 "late" = some [0] := by decide
  have holder : s.bufferHolder? 1 "late" = some 0 := by decide
  have grows := buffers_only_grow none none
    [.child 0 none (some true), .appendBuffer 0 "late" 0]
  exact ⟨found, holder, grows.1 1 "late" 0 [0] found holder _⟩

end Scopes
end Stylesheet
