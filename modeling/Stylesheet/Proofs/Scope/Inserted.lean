/-
# One scope more

`Renaming.insert s` is the renaming into a store that has one scope more, of the number
`s`: the scopes from `s` on move up by one.  A store is so renamed into the one with a new
block (`Scopes.Renamed.insert`), in which the same is found as in the scope around it.
-/

import Stylesheet.Proofs.Scope.Renamed

namespace Stylesheet

/-- A number, moved up by one from `k` on. -/
def shift (k i : Nat) : Nat :=
  if i < k then i else i + 1

/-- Numbers below the gap stay. -/
theorem shift_of_lt {k i : Nat} (h : i < k) : shift k i = i :=
  if_pos h

/-- Numbers from the gap on move up by one. -/
theorem shift_of_le {k i : Nat} (h : k ≤ i) : shift k i = i + 1 :=
  if_neg (Nat.not_lt.2 h)

/-- No number moves into the gap. -/
theorem shift_ne (k i : Nat) : shift k i ≠ k := by
  unfold shift
  split <;> omega

/-- No two numbers move to the same one. -/
theorem shift_injective (k : Nat) : Function.Injective (shift k) := by
  intro i j h
  unfold shift at h
  split at h <;> split at h <;> omega

/-- A list of numbers below the gap stays. -/
theorem map_shift {k : Nat} {l : List Nat} (h : ∀ i ∈ l, i < k) : l.map (shift k) = l :=
  (List.map_congr_left fun i hi => shift_of_lt (h i hi)).trans (List.map_id l)

namespace Renaming

/-- Nothing is renamed. -/
def same (free : String → Bool) : Renaming where
  scope := id
  group := id
  extra := fun _ => false
  site := (0, 0)
  free := free
  injective := Function.injective_id
  not_extra _ := rfl

/-- There is one scope more, of the number `s`. -/
def insert (s : Nat) (group : GroupId → GroupId) (site : Nat × Nat) (free : String → Bool) :
    Renaming where
  scope := shift s
  group := group
  extra := fun j => j == s
  site := site
  free := free
  injective := shift_injective s
  not_extra i := beq_false_of_ne (shift_ne s i)

end Renaming

namespace Scopes

variable {s s' : Scopes} {free : String → Bool}

/-- A store is renamed into itself. -/
theorem renamed_same (some' : 0 < s.all.size)
    (written : ∀ i name d, (s.get i).mixins.get? name = some d ∨
      (s.get i).functions.get? name = some d → Node.freshAll true d.body)
    (free : String → Bool) : s.Renamed (.same free) s where
  size _ := rfl
  site := ⟨some', some'⟩
  chain i i' pair := by
    have here : i' = i := pair.elim id fun e => by cases e; rfl
    rw [here]
    exact (List.filter_eq_self.2 fun _ _ => rfl).trans (List.map_id _).symm
  root _ _ _ := rfl
  options i i' pair := by
    have here : i' = i := pair.elim id fun e => by cases e; rfl
    rw [here]
  scope i :=
    { vars := rfl
      selector := rfl
      owns := rfl
      mixins := fun _ => Option.map_id.symm ▸ rfl
      functions := fun _ => Option.map_id.symm ▸ rfl
      buffers := fun name _ => by
        show _ = Option.map (List.map id) _
        rw [List.map_id_fun, Option.map_id]
        rfl
      written := written i }
  extra _ e := nomatch e

/-! ### A new scope -/

/-- The scopes of a store, moved up to make room for a new one. -/
theorem get_add_shift (s : Scopes) (p : ScopeId) (owns : Option Bool) (i : Nat) :
    (s.add (some p) none owns).2.get (shift s.all.size i) = s.get i := by
  rcases Nat.lt_or_ge i s.all.size with hi | hi
  · rw [shift_of_lt hi, get_add_of_lt hi]
  · rw [shift_of_le hi, get_of_size_le hi, get_of_size_le (by rw [size_add]; omega)]

/-- In a store with a scope inserted at its end, chains are as they were. -/
theorem chain_add_shift (h : s.WellFormed) (p : ScopeId) (owns : Option Bool) (i : Nat) :
    (s.add (some p) none owns).2.chain (shift s.all.size i) =
      (s.chain i).map (shift s.all.size) := by
  rw [chain, get_add_shift, chain, List.map_cons,
    map_shift fun j hj => (h.nested.lt_of_mem_ancestors hj).2]

/-- The root is the last scope in a chain. -/
theorem root_mem_chain (s : Scopes) (i : ScopeId) : s.root i ∈ s.chain i :=
  List.getLastD_mem_cons

/-- A definition that is in a scope keeps its scope if the store gets another one. -/
theorem WellFormed.shift_eq (h : s.WellFormed) {i : Nat} {name : String} {d : Definition}
    (there : (s.get i).mixins.get? name = some d ∨ (s.get i).functions.get? name = some d) :
    shift s.all.size d.scope = d.scope := by
  have home : d.scope = i := there.elim (h.mixins i name d) (h.functions i name d)
  refine shift_of_lt ?_
  rw [home]
  by_contra out
  rw [get_of_size_le (Nat.le_of_not_lt out)] at there
  rcases there with e | e <;> cases e

/-- What is found in a new block is found in the scope around it. -/
theorem Renamed.insert (h : s.Renamed (.same free) s') (wf : s.WellFormed) (wf' : s'.WellFormed)
    {p : Nat} (hp : p < s.all.size) :
    s.Renamed (.insert s.all.size id (p, s.all.size) free)
      (s'.add (some p) none (some false)).2 := by
  have size : s.all.size = s'.all.size := h.size 0
  have chain (i : Nat) : s'.chain i = s.chain i := by
    have same := h.chain i i (.inl rfl)
    rw [show (Renaming.same free).scope = id from rfl, List.map_id] at same
    exact (List.filter_eq_self.2 fun _ _ => rfl).symm.trans same
  have moved (l : List Nat) :
      ((l.map (shift s.all.size)).filter fun j => !(j == s.all.size)) =
        l.map (shift s.all.size) := by
    refine List.filter_eq_self.2 fun j hj => ?_
    obtain ⟨i, -, rfl⟩ := List.mem_map.1 hj
    simp [shift_ne]
  have above : (s'.chain p).map (shift s.all.size) = s'.chain p :=
    map_shift fun j hj => size ▸ wf'.lt_size_of_mem_chain (size ▸ hp) hj
  -- the scopes are as they were, moved up to make room for the new one
  rw [size] at hp moved above ⊢
  constructor
  · intro m
    rw [size_add]
    show shift _ _ = _
    rw [shift_of_le (by omega)]
    omega
  · rw [size_add]
    exact ⟨size ▸ hp, Nat.lt_succ_self _⟩
  · rintro i i' (rfl | site)
    · refine (congrArg _ (chain_add_shift wf' p _ i)).trans ?_
      rw [← chain]
      exact moved (s'.chain i)
    · cases site
      rw [chain_add, List.filter_cons_of_neg (by simp [Renaming.insert]), ← chain]
      have kept := moved (s'.chain p)
      rw [above] at kept
      exact kept.trans above.symm
  · rintro i i' (rfl | site)
    · have mem := root_mem_chain (s'.add (some p) none (some false)).2 (shift s'.all.size i)
      rw [chain_add_shift wf'] at mem
      obtain ⟨j, -, e⟩ := List.mem_map.1 mem
      exact beq_false_of_ne (e ▸ shift_ne _ j)
    · cases site
      show (Scopes.root _ s'.all.size == s'.all.size) = false
      rw [Scopes.root, get_add_self, List.getLastD_cons]
      have mem : s'.root p ∈ s'.chain p := root_mem_chain s' p
      exact beq_false_of_ne (Nat.ne_of_lt (wf'.lt_size_of_mem_chain hp mem))
  · rintro i i' (rfl | site)
    · refine (congrArg _ (get_add_shift s' p _ i)).trans ?_
      exact h.options i i (.inl rfl)
    · cases site
      rw [get_add_self]
      exact h.options p p (.inl rfl)
  · intro i
    refine (congrArg _ (get_add_shift s' p _ i)).mpr ?_
    have k : (s.get i).Renamed (.same free) (s'.get i) := h.scope i
    have home {name : String} {d : Definition} (there : (s.get i).mixins.get? name = some d ∨
        (s.get i).functions.get? name = some d) :
        (Renaming.insert s'.all.size id (p, s'.all.size) free).definition d = d := by
      show { d with scope := shift _ d.scope } = d
      rw [← size, wf.shift_eq there]
    refine { k with mixins := fun name => ?_, functions := fun name => ?_ }
    · rw [k.mixins name]
      cases found : (s.get i).mixins.get? name with
      | none => rfl
      | some d =>
        rw [Option.map_some, Option.map_some, home (.inl found)]
        rfl
    · rw [k.functions name]
      cases found : (s.get i).functions.get? name with
      | none => rfl
      | some d =>
        rw [Option.map_some, Option.map_some, home (.inr found)]
        rfl
  · intro j e
    cases eq_of_beq (show (j == s'.all.size) = true from e)
    rw [get_add_self, size_add]
    exact ⟨Nat.lt_succ_self _, rfl, rfl, rfl, rfl, rfl, fun _ _ => rfl⟩

/-- The groups so far keep their numbers, and later ones need not. -/
theorem Renamed.regroup {n k : Nat} {site : Nat × Nat}
    (h : s.Renamed (.insert n id site free) s') (hn : 0 < n) (hs : 0 < s.all.size)
    (entries : ∀ i name g, g ∈ s.entry i name → g < k) :
    s.Renamed (.insert n (shift k) (0, 0) free) s' := by
  have exact' {i i' : Nat} (pair : (Renaming.insert n (shift k) (0, 0) free).Pairs i i') :
      (Renaming.insert n id site free).Pairs i i' := by
    rcases pair with e | e
    · exact .inl e
    · cases e
      exact .inl (shift_of_lt hn).symm
  refine ⟨h.size, ⟨hs, Nat.lt_of_le_of_lt (Nat.zero_le _) h.site.2⟩,
    fun i i' pair => h.chain i i' (exact' pair), fun i i' pair => h.root i i' (exact' pair),
    fun i i' pair => h.options i i' (exact' pair), fun i => ?_, h.extra⟩
  refine { h.scope i with buffers := fun name e => ?_ }
  have groups := (h.scope i).buffers name e
  cases found : (s.get i).buffers.get? name with
  | none =>
    rw [found] at groups
    exact groups
  | some l =>
    rw [found] at groups
    have old : l.map (shift k) = l := map_shift fun g hg => entries i name g (by
      rw [entry, found]
      exact hg)
    refine groups.trans (congrArg some ?_)
    exact (List.map_id l).trans old.symm

end Scopes
end Stylesheet
