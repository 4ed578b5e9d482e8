/-
# Laying out a tree with other numbers for its groups

The pass does not read the number of a group but to find the group again.  So if two states
hold the same for the groups that have ended, under other numbers in one than in the other
(`Layout.State.Paired`), the pass leaves the same of a tree in the first as it leaves in the
second of the tree with its groups renamed, or fails in both (`Layout.paired_layNode`).
-/

import Stylesheet.Proofs.Layout.Finish
import Stylesheet.Proofs.Node.Order
import Stylesheet.Proofs.Node.Renamed

namespace Stylesheet
namespace Layout

open Node
open BufferStep (closed)

variable {α β γ δ : Type} {ρ : GroupId → GroupId} {done ends ends' : List GroupId}

/-- The groups that have come to their end hold the same in two states, where they have
other numbers in the second. -/
def State.Paired (ρ : GroupId → GroupId) (done : List GroupId) (s t : State) : Prop :=
  ∀ g ∈ done, ∃ n m, s.groups[g]? = some n ∧ t.groups[ρ g]? = some m ∧
    laidOutAll n.children ∧ m.children = n.children

/-- How two steps of the pass end, both with outcomes that fit or both with failures. -/
inductive Together (fits : α → β → Prop) : Except Failure α → Except Failure β → Prop where
  | ok {a : α} {b : β} (fit : fits a b) : Together fits (.ok a) (.ok b)
  | error {f g : Failure} : Together fits (.error f) (.error g)

/-- A weaker relation holds of two outcomes. -/
theorem Together.mono {fits fits' : α → β → Prop} {o : Except Failure α} {o' : Except Failure β}
    (h : Together fits o o') (fit : ∀ a b, fits a b → fits' a b) : Together fits' o o' := by
  cases h with
  | ok all => exact .ok (fit _ _ all)
  | error => exact .error

/-- If the first pass ends well, so does the second. -/
theorem Together.exists_right {fits : α → β → Prop} {a : α} {q : Except Failure β}
    (h : Together fits (.ok a) q) : ∃ b, q = .ok b ∧ fits a b := by
  cases h with
  | ok fit => exact ⟨_, rfl, fit⟩

/-- If the second pass ends well, so does the first. -/
theorem Together.exists_left {fits : α → β → Prop} {p : Except Failure α} {b : β}
    (h : Together fits p (.ok b)) : ∃ a, p = .ok a ∧ fits a b := by
  cases h with
  | ok fit => exact ⟨_, rfl, fit⟩

/-- What follows two steps that end together, whatever is to be shown of it. -/
theorem Together.elim {fits : α → β → Prop} {fits' : γ → δ → Prop} {o : Except Failure α}
    {o' : Except Failure β} {p : Except Failure γ} {q : Except Failure δ}
    (h : Together fits o o')
    (ok : ∀ a b, fits a b → o = .ok a → o' = .ok b → Together fits' p q)
    (error : ∀ f g, o = .error f → o' = .error g → Together fits' p q) :
    Together fits' p q := by
  cases h with
  | ok fit => exact ok _ _ fit rfl rfl
  | error => exact error _ _ rfl rfl

/-- How two steps end that go on from two that end together. -/
theorem Together.bind {x : Lay α} {y : Lay β} {f : α → Lay γ} {g : β → Lay δ}
    {fits : α → β → Prop} {fits' : γ → δ → Prop} {s t : State}
    (h : Together fits (x.outcome s) (y.outcome t))
    (next : ∀ a b, fits a b → x.outcome s = .ok a → y.outcome t = .ok b →
      Together fits' ((f a).outcome (x.after s)) ((g b).outcome (y.after t))) :
    Together fits' ((x >>= f).outcome s) ((y >>= g).outcome t) := by
  refine h.elim (fun a b fit o o' => ?_) fun e e' o o' => ?_
  · rw [Lay.outcome_bind, Lay.outcome_bind, o, o']
    exact next a b fit o o'
  · rw [Lay.outcome_bind, Lay.outcome_bind, o, o']
    exact .error

/-- Two steps of the pass that come to the ends of the same groups, under other numbers, and
end together. -/
def Paired (ρ : GroupId → GroupId) (done : List GroupId) (x : Lay α) (y : Lay β)
    (ends : List GroupId) (fits : α → β → Prop) : Prop :=
  ∀ s t, s.Paired ρ done t → (∀ g ∈ ends, g < s.groups.size ∧ ρ g < t.groups.size) →
    Together (fun a b => fits a b ∧ (x.after s).Paired ρ (done ++ ends) (y.after t) ∧
      (x.after s).groups.size = s.groups.size ∧ (y.after t).groups.size = t.groups.size)
      (x.outcome s) (y.outcome t)

/-- Two states are paired by their groups alone. -/
theorem State.Paired.of_groups_eq {s t s' t' : State} (h : s.Paired ρ done t)
    (groups : s'.groups = s.groups) (groups' : t'.groups = t.groups) : s'.Paired ρ done t' := by
  unfold State.Paired
  rw [groups, groups']
  exact h

/-- Other numbers may be given to the groups that have not ended. -/
theorem State.Paired.congr {ρ' : GroupId → GroupId} {s t : State} (h : s.Paired ρ done t)
    (same : ∀ g ∈ done, ρ' g = ρ g) : s.Paired ρ' done t := by
  intro g hg
  rw [same g hg]
  exact h g hg

namespace Paired

variable {x : Lay α} {y : Lay β} {f : α → Lay γ} {g : β → Lay δ} {fits : α → β → Prop}
  {fits' : γ → δ → Prop}

/-- Two inert steps are paired. -/
theorem of_inert {a : α} {b : β} (hx : Inert x a) (hy : Inert y b) (fit : fits a b) :
    Paired ρ done x y [] fits := by
  intro s t paired _
  obtain ⟨o, groups⟩ := hx s
  obtain ⟨o', groups'⟩ := hy t
  rw [o, o', List.append_nil]
  exact .ok ⟨fit, paired.of_groups_eq groups groups', by rw [groups], by rw [groups']⟩

/-- To do nothing is paired with doing nothing. -/
theorem pure {a : α} {b : β} (fit : fits a b) :
    Paired ρ done (Pure.pure a) (Pure.pure b) [] fits :=
  of_inert (.pure a) (.pure b) fit

/-- Two failures are paired. -/
theorem throw (e e' : Failure) :
    Paired ρ done (MonadExcept.throw e : Lay α) (MonadExcept.throw e' : Lay β) ends fits :=
  fun _ _ _ _ => .error

/-- A weaker relation holds of two paired steps. -/
theorem mono {fits' : α → β → Prop} (h : Paired ρ done x y ends fits)
    (fit : ∀ a b, fits a b → fits' a b) : Paired ρ done x y ends fits' :=
  fun s t paired bound =>
    (h s t paired bound).mono fun a b all => ⟨fit a b all.1, all.2⟩

/-- Paired steps after paired steps are paired. -/
theorem bind (h : Paired ρ done x y ends fits)
    (next : ∀ a b, fits a b → Paired ρ (done ++ ends) (f a) (g b) ends' fits') :
    Paired ρ done (x >>= f) (y >>= g) (ends ++ ends') fits' := by
  intro s t paired bound
  have first := h s t paired fun k hk => bound k (List.mem_append_left _ hk)
  refine first.bind fun a b all o o' => ?_
  obtain ⟨fit, paired', size, size'⟩ := all
  have rest := next a b fit _ _ paired' fun k hk => by
    rw [size, size']
    exact bound k (List.mem_append_right _ hk)
  rw [Lay.after_bind, Lay.after_bind, o, o', ← List.append_assoc, ← size, ← size']
  exact rest

/-- Steps that come to the end of no group, and what follows. -/
theorem quiet_bind (h : Paired ρ done x y [] fits)
    (next : ∀ a b, fits a b → Paired ρ done (f a) (g b) ends fits') :
    Paired ρ done (x >>= f) (y >>= g) ends fits' :=
  h.bind fun a b fit => by rw [List.append_nil]; exact next a b fit

/-- Steps, and what follows that comes to the end of no group. -/
theorem bind_quiet (h : Paired ρ done x y ends fits)
    (next : ∀ a b, fits a b → Paired ρ (done ++ ends) (f a) (g b) [] fits') :
    Paired ρ done (x >>= f) (y >>= g) ends fits' := by
  rw [← List.append_nil ends]
  exact h.bind next

/-- What follows a look at the groups may use that they are the same. -/
theorem get_bind {f : State → Lay α} {g : State → Lay β}
    (h : ∀ s t : State, s.Paired ρ done t → Paired ρ done (f s) (g t) ends fits) :
    Paired ρ done (get >>= f) (get >>= g) ends fits :=
  fun s t paired => h s t paired s t paired

end Paired

/-- The content of groups that have come to their end is the same, copied. -/
theorem flushed_paired {s t : State} (paired : s.Paired ρ done t) {captured : List GroupId}
    (ended : captured ⊆ done) :
    flushed t.groups (captured.map ρ) = flushed s.groups captured ∧
      laidOutAll (flushed s.groups captured) := by
  induction captured with
  | nil => exact ⟨rfl, rfl⟩
  | cons g captured ih =>
    obtain ⟨n, m, found, found', out, same⟩ := paired g (ended List.mem_cons_self)
    obtain ⟨rest, restOut⟩ := ih fun k hk => ended (List.mem_cons_of_mem g hk)
    rw [List.map_cons, flushed_cons found out, flushed_cons found' (same ▸ out), rest, same]
    exact ⟨rfl, laidOutAll_append out restOut⟩

/-- Flushes of the same groups leave the same. -/
theorem paired_layFlush (around : Around) (info : Info) (name : BufferName)
    {captured : List GroupId} (ended : captured ⊆ done) :
    Paired ρ done (layFlush around info name captured)
      (layFlush around info name (captured.map ρ)) []
      fun a b => b = a ∧ laidOutAll a := by
  refine .get_bind fun s t paired => ?_
  obtain ⟨same, out⟩ := flushed_paired paired ended
  rw [same]
  have recorded (step step' : BufferStep) :
      Paired ρ done (record step) (record step') [] fun _ _ => True :=
    .of_inert (inert_record step) (inert_record step') trivial
  have noted (text text' : String) :
      Paired ρ done (note text) (note text') [] fun _ _ => True :=
    .of_inert (inert_note text) (inert_note text') trivial
  refine (recorded _ _).quiet_bind fun _ _ _ => (noted _ _).quiet_bind fun _ _ _ => ?_
  cases around with
  | root =>
    dsimp only
    split
    · exact .throw _ _
    · exact .pure ⟨rfl, laidOutAll_markLast _ out⟩
  | _ => exact .pure ⟨rfl, laidOutAll_markLast _ out⟩

/-- The ends of groups with the same content. -/
theorem paired_finishBuffer (injective : Function.Injective ρ) {around : Around} {info : Info}
    {name : BufferName} {g : GroupId} (group : info.group = some g) (new : g ∉ done)
    {laid : List Node} (out : laidOutAll (risen around laid)) :
    Paired ρ done
      (do
        register around info (.buffer name) laid
        settle (finish around info (.buffer name) laid))
      (do
        register around (info.renamed ρ) (.buffer name) laid
        settle (finish around (info.renamed ρ) (.buffer name) laid)) [g]
      fun a b => a.left = [] ∧ b.left = [] := by
  intro s t paired bound
  obtain ⟨hg, hg'⟩ := bound g List.mem_cons_self
  have group' : (info.renamed ρ).group = some (ρ g) := by rw [Info.renamed, group]; rfl
  obtain ⟨outcome, after⟩ := @finish_group around info laid name g group s
  obtain ⟨outcome', after'⟩ := @finish_group around (info.renamed ρ) laid name (ρ g) group' t
  rw [outcome, outcome']
  refine .ok ⟨⟨rfl, rfl⟩, fun k hk => ?_, ?_, ?_⟩
  · rw [after, after']
    rcases List.mem_append.1 hk with old | last
    · obtain ⟨n, m, found, found', rest⟩ := paired k old
      have ne : g ≠ k := (ne_of_mem_of_not_mem old new).symm
      refine ⟨n, m, ?_, ?_, rest⟩
      · rw [Array.getElem?_setIfInBounds_ne ne]
        exact found
      · rw [Array.getElem?_setIfInBounds_ne fun e => ne (injective e)]
        exact found'
    · cases List.mem_singleton.1 last
      exact ⟨_, _, Array.getElem?_setIfInBounds_self_of_lt hg,
        Array.getElem?_setIfInBounds_self_of_lt hg', out, rfl⟩
  · rw [after, Array.size_setIfInBounds]
  · rw [after', Array.size_setIfInBounds]

/-- What a node leaves in two passes. -/
abbrev SameLeft (a b : Laid) : Prop :=
  b.left = a.left ∧ laidOutAll a.left

/-- Nodes that are no groups are kept as they are. -/
theorem paired_settle {x y : Lay (List Node)} {own own' : Node} (group : own.info.group = none)
    (group' : own'.info.group = none)
    (h : Paired ρ done x y [] fun a b => b = a ∧ laidOutAll a) :
    Paired ρ done (do let left ← x; settle { own, left })
      (do let left ← y; settle { own := own', left }) [] SameLeft :=
  h.quiet_bind fun _ _ fit =>
    .of_inert (inert_settle (by exact group)) (inert_settle (by exact group')) fit

mutual

/-- **A tree with its groups renamed is laid out as the tree is.** -/
theorem paired_layNode (injective : Function.Injective ρ) {done : List GroupId}
    {around : Around} (proper : around.proper) (n : Node) (settled : n.settled true)
    (ordered : BufferStep.Ordered done n.steps) :
    Paired ρ done (layNode around n) (layNode around (n.renamed ρ fun _ => false))
      (closed n.steps) SameLeft := by
  match n with
  | .plain info head cs =>
    have inner := settledAll_of_settled settled
    obtain ⟨orderedInner, last⟩ := ordered_steps ordered
    simp only [Node.settled, Bool.and_eq_true] at settled
    obtain ⟨⟨⟨final, group⟩, suits⟩, -⟩ := settled
    have insides := paired_layAll injective (proper_content proper info final) cs inner
      orderedInner
    rw [Node.renamed, layNode, layNode]
    cases head with
    | declaration | comment =>
      have group := Option.isNone_iff_eq_none.1 group
      cases Head.nil_of_suits suits rfl
      rw [closed_steps_of_ne (by simp), info_renamed_of_none group]
      refine paired_settle group group (.pure ⟨rfl, ?_⟩)
      exact laidOutAll_leaf group rfl
    | extend selector resolved =>
      have group := Option.isNone_iff_eq_none.1 group
      cases Head.nil_of_suits suits rfl
      rw [closed_steps_of_ne (by simp), info_renamed_of_none group]
      have dropped : Inert (layLeaf around info (.extend selector resolved) []) [] :=
        (inert_note _).bind (.pure [])
      exact paired_settle group group (.of_inert dropped dropped ⟨rfl, rfl⟩)
    | flush name captured =>
      have group := Option.isNone_iff_eq_none.1 group
      cases Head.nil_of_suits suits rfl
      have kept : (Head.flush name captured).renamed ρ (fun _ => false) =
          .flush name (captured.map ρ) := by
        rw [Head.renamed]
        cases name.resolved <;> rfl
      rw [closed_steps_of_ne (by simp), info_renamed_of_none group, kept]
      exact paired_settle group group
        (paired_layFlush around info name (captured_subset ordered))
    | importSheet uri =>
      have group := Option.isNone_iff_eq_none.1 group
      cases Head.nil_of_suits suits rfl
      rw [closed_steps_of_ne (by simp), info_renamed_of_none group]
      have empty : Paired ρ done (layAll .other []) (layAll .other []) []
          fun a b => a = [] ∧ b = [] := .pure ⟨rfl, rfl⟩
      refine empty.quiet_bind fun a b nothing => ?_
      obtain ⟨rfl, rfl⟩ := nothing
      refine .of_inert (inert_finish proper group rfl) (inert_finish proper group rfl) ⟨rfl, ?_⟩
      exact laidOutAll_leaf group rfl
    | rule | media | supports | directive =>
      have group := Option.isNone_iff_eq_none.1 group
      rw [closed_steps_of_ne (by simp), info_renamed_of_none group]
      refine insides.bind_quiet fun a b same => ?_
      obtain ⟨rfl, out⟩ := same
      refine .of_inert (inert_finish proper group out) (inert_finish proper group out) ⟨rfl, ?_⟩
      exact (leaves_finish proper group (Head.final_of_settled final rfl) rfl out).laidOut
    | buffer name =>
      rw [closed_steps, Tag.step?] at *
      refine insides.bind fun a b same => ?_
      obtain ⟨rfl, out⟩ := same
      cases group : info.group with
      | none =>
        rw [info_renamed_of_none group]
        exact .of_inert (inert_finish proper group out) (inert_finish proper group out)
          ⟨rfl, rfl⟩
      | some g =>
        rw [group] at last
        refine (paired_finishBuffer injective group last.1 (risen_spec proper out).1).mono
          fun a b nothing => ⟨?_, ?_⟩
        · rw [nothing.1, nothing.2]
        · rw [nothing.1]
          rfl
    | root => cases suits
    | _ => cases final
  | .cond .. => cases settled

/-- Trees with their groups renamed are laid out as the trees are. -/
theorem paired_layAll (injective : Function.Injective ρ) {done : List GroupId}
    {around : Around} (proper : around.proper) (ns : List Node) (settled : settledAll true ns)
    (ordered : BufferStep.Ordered done (stepsAll ns)) :
    Paired ρ done (layAll around ns) (layAll around (renamedAll ρ (fun _ => false) ns))
      (closed (stepsAll ns)) fun a b => b = a ∧ laidOutAll a := by
  match ns with
  | [] => exact .pure ⟨rfl, rfl⟩
  | n :: ns =>
    rw [settledAll, Bool.and_eq_true] at settled
    rw [stepsAll_cons] at ordered ⊢
    rw [BufferStep.ordered_append] at ordered
    rw [BufferStep.closed_append, renamedAll, layAll, layAll]
    have first := paired_layNode injective proper n settled.1 ordered.1
    have rest := paired_layAll injective proper ns settled.2 ordered.2
    refine first.bind fun a a' same => rest.bind_quiet fun b b' same' => .pure ?_
    exact ⟨by rw [same.1, same'.1], laidOutAll_append same.2 same'.2⟩

end

end Layout
end Stylesheet
