/-
# Trees with their groups renamed

`Node.renamed ρ free` gives the groups of a tree other numbers, in the nodes that they are
and in the flushes that have captured them.  What flushes of the names `free` have captured
is forgotten, so trees that differ in nothing else are renamed to the same tree.

A tree that has not been evaluated stays as it is (`Node.renamed_of_fresh`); in others the
steps of a walk are renamed with the tree (`Node.steps_renamed`), and nothing is forgotten
if no step is about a free name (`Node.renamed_of_avoids`).
-/

import Stylesheet.Proofs.Node.Walk

namespace Stylesheet

/-- The name that a step is about. -/
def BufferStep.name : BufferStep → Option String
  | group _ name => name
  | flush name _ => name

/-- A step with its groups renamed. -/
def BufferStep.renamed (ρ : GroupId → GroupId) (free : String → Bool) : BufferStep → BufferStep
  | group g name => group (ρ g) name
  | flush name captured => flush name (if name.any free then [] else captured.map ρ)

/-- A head with the groups that it refers to renamed. -/
def Head.renamed (ρ : GroupId → GroupId) (free : String → Bool) : Head → Head
  | flush name captured => flush name (if name.resolved.any free then [] else captured.map ρ)
  | h => h

/-- A common part with its group renamed. -/
def Info.renamed (ρ : GroupId → GroupId) (i : Info) : Info :=
  { i with group := i.group.map ρ }

namespace Node

section

variable (ρ : GroupId → GroupId) (free : String → Bool)

mutual

/-- A tree with its groups renamed. -/
def renamed : Node → Node
  | plain i h cs => plain (i.renamed ρ) (h.renamed ρ free) (renamedAll cs)
  | cond i t cs o => cond (i.renamed ρ) t (renamedAll cs) (renamedOption o)

/-- Some trees with their groups renamed. -/
def renamedAll : List Node → List Node
  | [] => []
  | n :: ns => n.renamed :: renamedAll ns

/-- A clause that may be absent with its groups renamed. -/
def renamedOption : Option Node → Option Node
  | none => none
  | some n => some n.renamed

end

end

variable {ρ : GroupId → GroupId} {free : String → Bool}

/-- Some nodes are renamed one by one. -/
theorem renamedAll_eq_map (ns : List Node) : renamedAll ρ free ns = ns.map (renamed ρ free) := by
  induction ns with
  | nil => rfl
  | cons n ns ih => rw [renamedAll, ih, List.map_cons]

/-- Two lists of nodes are renamed one after the other. -/
theorem renamedAll_append (ns ms : List Node) :
    renamedAll ρ free (ns ++ ms) = renamedAll ρ free ns ++ renamedAll ρ free ms := by
  rw [renamedAll_eq_map, renamedAll_eq_map, renamedAll_eq_map, List.map_append]

/-- A list of one node is renamed as the node is. -/
theorem renamedAll_singleton (n : Node) : renamedAll ρ free [n] = [n.renamed ρ free] :=
  rfl

/-- Renaming leaves the kind of a node. -/
theorem kind_renamed (n : Node) : (n.renamed ρ free).kind = n.kind := by
  cases n with
  | plain i h cs => cases h <;> rfl
  | cond => rfl

/-- Renaming keeps the kinds of nodes. -/
theorem all_kind_renamedAll (p : Kind → Bool) (ns : List Node) :
    (renamedAll ρ free ns).all (fun n => p n.kind) = ns.all fun n => p n.kind := by
  rw [renamedAll_eq_map, List.all_map]
  refine congrArg ns.all (funext fun n => ?_)
  exact congrArg p (kind_renamed n)

/-! ### What has not been evaluated -/

/-- A fresh head has no groups to rename. -/
theorem head_renamed_of_fresh {h : Head} (fresh : h.fresh) : h.renamed ρ free = h := by
  cases h with
  | flush name captured =>
    rw [Head.fresh, Bool.and_eq_true, Option.isNone_iff_eq_none, List.isEmpty_iff] at fresh
    obtain ⟨unresolved, rfl⟩ := fresh
    rw [Head.renamed, unresolved]
    rfl
  | _ => rfl

/-- A node without a number has none to rename. -/
theorem info_renamed_of_none {i : Info} (h : i.group = none) : i.renamed ρ = i := by
  rw [Info.renamed, h, Option.map_none, ← h]

variable {bare : Bool}

mutual

/-- A fresh tree has nothing to rename. -/
theorem renamed_of_fresh {n : Node} (h : n.fresh bare) : n.renamed ρ free = n := by
  match n with
  | .plain i head cs =>
    simp only [fresh, Bool.and_eq_true, Option.isNone_iff_eq_none] at h
    obtain ⟨⟨⟨group, unused⟩, -⟩, inner⟩ := h
    rw [renamed, info_renamed_of_none group, head_renamed_of_fresh unused,
      renamedAll_of_freshAll inner]
  | .cond i t cs o =>
    simp only [fresh, Bool.and_eq_true, Option.isNone_iff_eq_none] at h
    obtain ⟨⟨group, inner⟩, clause⟩ := h
    rw [renamed, info_renamed_of_none group, renamedAll_of_freshAll inner,
      renamedOption_of_freshOption clause]

/-- Fresh nodes have nothing to rename. -/
theorem renamedAll_of_freshAll {ns : List Node} (h : freshAll bare ns) :
    renamedAll ρ free ns = ns := by
  match ns with
  | [] => rfl
  | n :: ns =>
    rw [freshAll, Bool.and_eq_true] at h
    rw [renamedAll, renamed_of_fresh h.1, renamedAll_of_freshAll h.2]

/-- A fresh clause has nothing to rename. -/
theorem renamedOption_of_freshOption {o : Option Node} (h : freshOption bare o) :
    renamedOption ρ free o = o := by
  match o with
  | none => rfl
  | some n => rw [renamedOption, renamed_of_fresh h]

end

/-! ### The walk through a renamed tree -/

/-- The step at the start of a node is renamed as the node is. -/
theorem step?_opens_renamed (i : Info) (h : Head) (cs : List Node) :
    Tag.step? (.opens ((plain i h cs).renamed ρ free)) =
      (Tag.step? (.opens (plain i h cs))).map (BufferStep.renamed ρ free) := by
  cases h with
  | flush name captured =>
    have live : (BufferStep.flush name.resolved
        (if name.resolved.any free then [] else captured.map ρ)).live =
          (BufferStep.flush name.resolved captured).live := by
      cases name.resolved with
      | none => simp [BufferStep.live, Option.any]
      | some text => rfl
    rw [renamed, Head.renamed, Tag.step?, Tag.step?, Option.guard, Option.guard, live]
    split <;> rfl
  | _ => rfl

/-- The step at the end of a node is renamed as the node is. -/
theorem step?_closes_renamed (i : Info) (h : Head) (cs : List Node) :
    Tag.step? (.closes ((plain i h cs).renamed ρ free)) =
      (Tag.step? (.closes (plain i h cs))).map (BufferStep.renamed ρ free) := by
  cases h with
  | buffer name =>
    show Option.map _ (i.renamed ρ).group = Option.map _ (Option.map _ i.group)
    rw [Info.renamed, Option.map_map, Option.map_map]
    rfl
  | _ => rfl

mutual

/-- The steps of a tree are renamed as the tree is. -/
theorem steps_renamed (n : Node) :
    (n.renamed ρ free).steps = n.steps.map (BufferStep.renamed ρ free) := by
  match n with
  | .plain i h cs =>
    have before := @step?_opens_renamed ρ free i h cs
    have last := @step?_closes_renamed ρ free i h cs
    rw [renamed] at before last ⊢
    rw [steps_plain, steps_plain, before, last, stepsAll_renamedAll, List.map_append,
      List.map_append, Option.toList_map, Option.toList_map]
  | .cond i t cs o =>
    rw [renamed, steps_cond, steps_cond, stepsAll_renamedAll, List.map_append,
      steps_renamedOption]

/-- The steps of some nodes are renamed as the nodes are. -/
theorem stepsAll_renamedAll (ns : List Node) :
    stepsAll (renamedAll ρ free ns) = (stepsAll ns).map (BufferStep.renamed ρ free) := by
  match ns with
  | [] => rfl
  | n :: ns =>
    rw [renamedAll, stepsAll_cons, stepsAll_cons, steps_renamed, stepsAll_renamedAll,
      List.map_append]

/-- The steps of a clause are renamed as the clause is. -/
theorem steps_renamedOption (o : Option Node) :
    (tagsOption (renamedOption ρ free o)).filterMap Tag.step? =
      ((tagsOption o).filterMap Tag.step?).map (BufferStep.renamed ρ free) := by
  match o with
  | none => rfl
  | some n => exact steps_renamed n

end

/-! ### What is not forgotten -/

/-- Whether no step is about a free name. -/
def Avoids (free : String → Bool) (walk : List BufferStep) : Prop :=
  ∀ s ∈ walk, s.name.any free = false

/-- Two walks avoid some names if each one does. -/
theorem avoids_append {walk walk' : List BufferStep} :
    Avoids free (walk ++ walk') ↔ Avoids free walk ∧ Avoids free walk' := by
  simp only [Avoids, List.mem_append, or_imp, forall_and]

/-- A head that avoids the free names is renamed by its groups alone. -/
theorem head_renamed_of_avoids {i : Info} {h : Head} {cs : List Node}
    (avoids : Avoids free (plain i h cs).steps) :
    h.renamed ρ free = h.renamed ρ fun _ => false := by
  cases h with
  | flush name captured =>
    have kept : name.resolved.any free = false := by
      cases e : name.resolved with
      | none => rfl
      | some text =>
        refine avoids (.flush (some text) captured) ?_
        rw [steps_plain, Tag.step?, e]
        exact List.mem_cons_self
    have never : (name.resolved.any fun _ => false) = false := by
      cases name.resolved <;> rfl
    rw [Head.renamed, Head.renamed, kept, never]
  | _ => rfl

mutual

/-- A tree that avoids the free names is renamed by its groups alone. -/
theorem renamed_of_avoids {n : Node} (h : Avoids free n.steps) :
    n.renamed ρ free = n.renamed ρ fun _ => false := by
  match n with
  | .plain i head cs =>
    have inner : Avoids free (stepsAll cs) := by
      rw [steps_plain, avoids_append, avoids_append] at h
      exact h.1.2
    rw [renamed, renamed, head_renamed_of_avoids h, renamedAll_of_avoids inner]
  | .cond i t cs o =>
    rw [steps_cond, avoids_append] at h
    rw [renamed, renamed, renamedAll_of_avoids h.1, renamedOption_of_avoids h.2]

/-- As `renamed_of_avoids`, for some nodes. -/
theorem renamedAll_of_avoids {ns : List Node} (h : Avoids free (stepsAll ns)) :
    renamedAll ρ free ns = renamedAll ρ (fun _ => false) ns := by
  match ns with
  | [] => rfl
  | n :: ns =>
    rw [stepsAll_cons, avoids_append] at h
    rw [renamedAll, renamedAll, renamed_of_avoids h.1, renamedAll_of_avoids h.2]

/-- As `renamed_of_avoids`, for a clause. -/
theorem renamedOption_of_avoids {o : Option Node}
    (h : Avoids free ((tagsOption o).filterMap Tag.step?)) :
    renamedOption ρ free o = renamedOption ρ (fun _ => false) o := by
  match o with
  | none => rfl
  | some n => rw [renamedOption, renamedOption, renamed_of_avoids (by exact h)]

end

/-- A head is the same if no group is renamed. -/
theorem head_renamed_id (h : Head) : (h.renamed id fun _ => false) = h := by
  cases h with
  | flush name captured =>
    rw [Head.renamed, List.map_id]
    cases name.resolved <;> rfl
  | _ => rfl

mutual

/-- A tree is the same if no group is renamed. -/
theorem renamed_id (n : Node) : (n.renamed id fun _ => false) = n := by
  match n with
  | .plain i h cs =>
    rw [renamed, Info.renamed, Option.map_id, head_renamed_id, renamedAll_id]
    rfl
  | .cond i t cs o =>
    rw [renamed, Info.renamed, Option.map_id, renamedAll_id, renamedOption_id]
    rfl

/-- Some nodes are the same if no group is renamed. -/
theorem renamedAll_id (ns : List Node) : renamedAll id (fun _ => false) ns = ns := by
  match ns with
  | [] => rfl
  | n :: ns => rw [renamedAll, renamed_id, renamedAll_id]

/-- A clause is the same if no group is renamed. -/
theorem renamedOption_id (o : Option Node) : renamedOption id (fun _ => false) o = o := by
  match o with
  | none => rfl
  | some n => rw [renamedOption, renamed_id]

end

/-- Renaming a step leaves its name. -/
theorem name_renamed (s : BufferStep) : (s.renamed ρ free).name = s.name := by
  cases s <;> rfl

/-- Trees that are renamed to the same trees come past steps of the same names. -/
theorem avoids_of_renamedAll_eq {ρ' : GroupId → GroupId} {ns ms : List Node}
    (e : renamedAll ρ free ns = renamedAll ρ' free ms) (h : Avoids free (stepsAll ns)) :
    Avoids free (stepsAll ms) := by
  intro s hs
  have mem : s.renamed ρ' free ∈ stepsAll (renamedAll ρ free ns) := by
    rw [e, stepsAll_renamedAll]
    exact List.mem_map_of_mem hs
  rw [stepsAll_renamedAll] at mem
  obtain ⟨t, ht, same⟩ := List.mem_map.1 mem
  have name := congrArg BufferStep.name same
  rw [name_renamed, name_renamed] at name
  rw [← name]
  exact h t ht

/-- **What is not about a free name has only been renamed.** -/
theorem eq_renamedAll_of_avoids {ns ms : List Node}
    (e : renamedAll ρ free ns = renamedAll id free ms) (h : Avoids free (stepsAll ns)) :
    ms = renamedAll ρ (fun _ => false) ns := by
  have other := avoids_of_renamedAll_eq e h
  rw [renamedAll_of_avoids h, renamedAll_of_avoids other, renamedAll_id] at e
  exact e.symm

end Node
end Stylesheet
