/-
# Laying out a buffer that is flushed at once

Rules, queries and conditions are laid out in a buffer at the root as they are at the root
itself (`Layout.layAll_other`).  They leave no declaration there, and the last node that they
leave ends a group.  So a flush at the root leaves what has been left in the buffer, as it
is (`Layout.run_captureFlush`), and a tree is laid out as it is with a part of it captured and
flushed at once (`Layout.together_capturedIn`).
-/

import Stylesheet.Proofs.Evaluation.AtOnce
import Stylesheet.Proofs.Layout.Paired
import Stylesheet.Proofs.Layout.RootContent

namespace Stylesheet
namespace Layout

open Node
open BufferStep (closed)

variable {info : Info} {head : Head} {n : Node} {ns ms body laid left : List Node}

/-! ### The end of a group -/

/-- The last of two lists is the last of the second, if it has one. -/
theorem changeLast_append (f : Node → Node) (ns : List Node) (some' : ms ≠ []) :
    changeLast f (ns ++ ms) = ns ++ changeLast f ms := by
  induction ns with
  | nil => rfl
  | cons n ns ih =>
    cases e : ns ++ ms with
    | nil => exact absurd (List.append_eq_nil_iff.1 e).2 some'
    | cons m rest =>
      rw [List.cons_append, e]
      show n :: changeLast f (m :: rest) = _
      rw [← e, ih, List.cons_append]

/-- Whether the last node ends a group, if there is one. -/
def Marked (ns : List Node) : Prop :=
  changeLast (markGroupEnd true) ns = ns

/-- If two lists end a group, so do both together. -/
theorem Marked.append (h : Marked ns) (k : Marked ms) : Marked (ns ++ ms) := by
  cases ms with
  | nil => rwa [List.append_nil]
  | cons m ms => rw [Marked, changeLast_append _ _ (List.cons_ne_nil m ms), k]

/-- In the document, the last of some nodes is marked. -/
theorem marked_markLast (ns : List Node) : Marked (markLast .root ns) := by
  show Marked (changeLast _ ns)
  induction ns with
  | nil => rfl
  | cons n ns ih =>
    cases ns with
    | nil => cases n <;> rfl
    | cons m ns =>
      have some' : changeLast (markGroupEnd true) (m :: ns) ≠ [] := by cases ns <;> exact nofun
      show changeLast _ ([n] ++ changeLast _ (m :: ns)) = _
      rw [changeLast_append _ _ some', ih]
      rfl

/-! ### Rules, queries and conditions -/

/-- A rule, a query or a condition is laid out in the document as outside of it. -/
theorem layNode_other (h : n.grouping) : layNode .root n = layNode .other n := by
  match n with
  | .plain info head cs =>
    rw [layNode, layNode]
    cases head with
    | rule | media | supports => rfl
    | _ => cases h
  | .cond .. => cases h

/-- Rules, queries and conditions are laid out in a buffer as they are at the root. -/
theorem layAll_other (h : ns.all grouping) : layAll .root ns = layAll .other ns := by
  induction ns with
  | nil => rfl
  | cons n ns ih =>
    rw [List.all_cons, Bool.and_eq_true] at h
    rw [layAll, layAll, layNode_other h.1, ih h.2]

/-- What a block leaves in the document ends a group. -/
theorem marked_before (own : Node) (others : List Node) :
    Marked (Laid.before .root own others).left := by
  unfold Laid.before
  split <;> exact marked_markLast _

/-- What a rule, a query or a condition leaves in the document ends a group. -/
theorem marked_layNode (h : n.grouping) {s : State} {laid : Laid}
    (o : (layNode .root n).outcome s = .ok laid) : Marked laid.left := by
  match n with
  | .plain info head cs =>
    cases head with
    | rule | media | supports =>
      obtain ⟨content, -, rfl⟩ := layNode_eq_ok rfl o
      exact marked_before _ _
    | _ => cases h
  | .cond .. => cases h

/-- The last node that they leave ends a group. -/
theorem marked_layAll (h : ns.all grouping) {s : State}
    (o : (layAll .root ns).outcome s = .ok left) : Marked left := by
  induction ns generalizing s left with
  | nil =>
    rw [layAll] at o
    cases o
    rfl
  | cons n ns ih =>
    rw [List.all_cons, Bool.and_eq_true] at h
    obtain ⟨first, others, of, oo, rfl⟩ := layAll_cons_eq_ok o
    exact (marked_layNode h.1 of).append (ih h.2 oo)

/-- No rule, query or condition is a declaration. -/
theorem declaration_not_mem_of_grouping (h : ns.all grouping) :
    .declaration ∉ ns.map Node.kind := by
  rintro mem
  obtain ⟨n, hn, e⟩ := List.mem_map.1 mem
  have group := List.all_eq_true.1 h n hn
  match n with
  | .plain info head cs =>
    cases head with
    | declaration => cases group
    | _ => cases e

/-! ### A buffer and a flush of it -/

/-- A flush at the root of groups without declarations in them. -/
theorem run_layFlush {name : BufferName} {captured : List GroupId} {s : State}
    (accepted : .declaration ∉ (flushed s.groups captured).map Node.kind) :
    (layFlush .root info name captured).outcome s =
        .ok (markLast .root (flushed s.groups captured)) ∧
      ((layFlush .root info name captured).after s).groups = s.groups := by
  have none' : ((flushed s.groups captured).any (·.kind == .declaration)) = false := by
    rw [List.any_eq_false]
    rintro n hn e
    exact accepted (List.mem_map.2 ⟨n, hn, beq_iff_eq.1 e⟩)
  unfold layFlush
  constructor
  · show (ite _ _ _ : Lay (List Node)).outcome _ = _
    rw [if_neg (by simp [none'])]
    rfl
  · show ((ite _ _ _ : Lay (List Node)).after _).groups = _
    rw [if_neg (by simp [none'])]
    rfl

section

variable {name : BufferName} {k : GroupId} {s : State}

/-- A flush at the root leaves what its group holds, if no declaration is among it and the
last node ends a group. -/
theorem run_flush (found : s.groups[k]? = some n) (out : laidOutAll n.children)
    (accepted : .declaration ∉ n.children.map Node.kind) (marked : Marked n.children) :
    let flush : Node := .plain info.apart (.flush name [k]) []
    (layNode .root flush).outcome s = .ok { own := flush, left := n.children } ∧
      ((layNode .root flush).after s).groups = s.groups := by
  intro flush
  have replaced : layNode .root flush = (do
      let left ← layFlush .root info.apart name [k]
      settle { own := flush, left }) := by
    rw [layNode]
    rfl
  have copies : flushed s.groups [k] = n.children := by
    rw [flushed_cons found out]
    exact List.append_nil n.children
  have last : markLast .root n.children = n.children := marked
  obtain ⟨o, groups⟩ := @run_layFlush info.apart name [k] s (copies.symm ▸ accepted)
  rw [copies, last] at o
  obtain ⟨o', groups'⟩ := @inert_settle { own := flush, left := n.children } rfl
    ((layFlush .root info.apart name [k]).after s)
  rw [replaced, Lay.outcome_bind, Lay.after_bind, o]
  exact ⟨o', groups'.trans groups⟩

/-- A buffer in the document lays out its content as outside of it. -/
theorem layNode_buffer : layNode .root (.plain info (.buffer name) body) = (do
    let laid ← layAll .other body
    register .root info (.buffer name) laid
    settle (finish .root info (.buffer name) laid)) := by
  rw [layNode]
  rfl

/-- A buffer leaves nothing and is found as its content has been laid out. -/
theorem run_buffer (o : (layAll .other body).outcome s = .ok laid) :
    let buffer : Node := .plain { info with group := some k } (.buffer name) body
    let own : Node := .plain { info with group := some k } (.buffer name) laid
    (layNode .root buffer).outcome s = .ok { own, left := [] } ∧
      ((layNode .root buffer).after s).groups =
        ((layAll .other body).after s).groups.setIfInBounds k own := by
  intro buffer own
  rw [layNode_buffer, Lay.outcome_bind, Lay.after_bind, o]
  exact @finish_group .root { info with group := some k } laid name k rfl
    ((layAll .other body).after s)

/-- A buffer fails if its content does. -/
theorem run_buffer_error {f : Failure} (o : (layAll .other body).outcome s = .error f) :
    (layAll .root (.plain info (.buffer name) body :: ns)).outcome s = .error f := by
  rw [layAll, Lay.outcome_bind, layNode_buffer, Lay.outcome_bind, o]

/-- Nodes of which the first one and the others can be laid out. -/
theorem run_layAll_cons {around : Around} {first : Laid}
    (o : (layNode around n).outcome s = .ok first)
    (o' : (layAll around ns).outcome ((layNode around n).after s) = .ok left) :
    (layAll around (n :: ns)).outcome s = .ok (first.left ++ left) ∧
      (layAll around (n :: ns)).after s =
        (layAll around ns).after ((layNode around n).after s) := by
  rw [layAll, Lay.outcome_bind, Lay.after_bind, o]
  dsimp only
  rw [Lay.outcome_bind, Lay.after_bind, o']
  exact ⟨rfl, rfl⟩

/-- **A buffer and a flush of it leave what the content of the buffer does**, if no
declaration is among it and the last node ends a group. -/
theorem run_captureFlush {info' : Info} (o : (layAll .other body).outcome s = .ok laid)
    (hk : k < ((layAll .other body).after s).groups.size) (out : laidOutAll laid)
    (accepted : .declaration ∉ laid.map Node.kind) (marked : Marked laid) :
    let buffer : Node := .plain { info with group := some k } (.buffer name) body
    let flush : Node := .plain info'.apart (.flush name [k]) []
    (layAll .root [buffer, flush]).outcome s = .ok laid ∧
      ((layAll .root [buffer, flush]).after s).groups =
        ((layAll .other body).after s).groups.setIfInBounds k
          (.plain { info with group := some k } (.buffer name) laid) := by
  intro buffer flush
  obtain ⟨first, groups⟩ := @run_buffer info body laid name k s o
  have found : ((layNode .root buffer).after s).groups[k]? =
      some (.plain { info with group := some k } (.buffer name) laid) := by
    rw [groups]
    exact Array.getElem?_setIfInBounds_self_of_lt hk
  obtain ⟨second, same⟩ := @run_flush info' _ name k _ found out accepted marked
  have last : (layAll .root []).outcome ((layNode .root flush).after
      ((layNode .root buffer).after s)) = .ok [] := rfl
  obtain ⟨others, after⟩ := run_layAll_cons second last
  obtain ⟨all, after'⟩ := run_layAll_cons first others
  rw [all, after', after]
  refine ⟨congrArg _ (List.append_nil laid), ?_⟩
  exact same.trans groups

end

/-! ### One layout beside the other -/

/-- Rules, queries and conditions that are captured and flushed at once are laid out as they
are at the root. -/
theorem together_captureFlush {done : List GroupId} {info' : Info} {name : BufferName}
    {k : GroupId} (settled : settledAll true body)
    (ordered : BufferStep.Ordered done (stepsAll body)) (grouping : body.all Node.grouping)
    {s t : State} (paired : s.Paired id done t)
    (bound : ∀ g ∈ closed (stepsAll body), g < s.groups.size ∧ g < t.groups.size)
    (hk : k < t.groups.size) (new : k ∉ done ++ closed (stepsAll body)) :
    let captured : List Node := [.plain { info with group := some k } (.buffer name) body,
      .plain info'.apart (.flush name [k]) []]
    Together (fun a b => b = a ∧ ((layAll .root body).after s).Paired id
        (done ++ closed (stepsAll body)) ((layAll .root captured).after t) ∧
      ((layAll .root body).after s).groups.size = s.groups.size ∧
      ((layAll .root captured).after t).groups.size = t.groups.size)
      ((layAll .root body).outcome s) ((layAll .root captured).outcome t) := by
  intro captured
  have inside : Together _ ((layAll .root body).outcome s)
      ((layAll .root (renamedAll id (fun _ => false) body)).outcome t) :=
    paired_layAll Function.injective_id rfl body settled ordered s t paired bound
  rw [renamedAll_id] at inside
  have other := layAll_other grouping
  refine inside.elim (fun left left' all o o' => ?_) fun f f' o o' => ?_
  · obtain ⟨⟨rfl, out⟩, paired', size, size'⟩ := all
    have accepted := declaration_not_mem_layAll (declaration_not_mem_of_grouping grouping) o
    have marked := marked_layAll grouping o
    have ended : k < ((layAll .other body).after t).groups.size := by
      rw [← other, size']
      exact hk
    obtain ⟨run, groups⟩ := @run_captureFlush info body left' name k t info' (other ▸ o')
      ended out accepted marked
    rw [← other] at groups
    rw [o, run]
    refine .ok ⟨rfl, fun g hg => ?_, size, ?_⟩
    · obtain ⟨n, m, found, found', rest⟩ := paired' g hg
      refine ⟨n, m, found, ?_, rest⟩
      show ((layAll .root captured).after t).groups[g]? = _
      rw [groups, Array.getElem?_setIfInBounds_ne (ne_of_mem_of_not_mem hg new).symm]
      exact found'
    · rw [groups, Array.size_setIfInBounds, size']
  · rw [other] at o'
    rw [o, run_buffer_error o']
    exact .error

/-- The content of some nodes, laid out one part after the other. -/
theorem layAll_append (around : Around) (ns ms : List Node) :
    layAll around (ns ++ ms) = (do
      let first ← layAll around ns
      let others ← layAll around ms
      return first ++ others) := by
  induction ns with
  | nil => simp [layAll]
  | cons n ns ih =>
    simp only [List.cons_append, layAll, ih, bind_assoc, pure_bind, List.append_assoc]

/-- What ends in a renamed walk. -/
theorem closed_renamed (ρ : GroupId → GroupId) (free : String → Bool) (walk : List BufferStep) :
    closed (walk.map (BufferStep.renamed ρ free)) = (closed walk).map ρ := by
  unfold closed
  rw [List.filterMap_map, List.map_filterMap]
  refine List.filterMap_congr fun s _ => ?_
  cases s <;> rfl

/-- What ends in a tree in which a part has been captured and flushed at once. -/
theorem closed_captured {info' : Info} {before after : List Node} {name : BufferName}
    {k : GroupId} {ρ : GroupId → GroupId} :
    closed (stepsAll (before ++ ([.plain { info with group := some k } (.buffer name) body,
      .plain info'.apart (.flush name [k]) []] ++ renamedAll ρ (fun _ => false) after))) =
      closed (stepsAll before) ++ ((closed (stepsAll body) ++ [k]) ++
        (closed (stepsAll after)).map ρ) := by
  rw [stepsAll_append, stepsAll_append, stepsAll_cons, stepsAll_singleton,
    BufferStep.closed_append, BufferStep.closed_append, BufferStep.closed_append, closed_steps,
    closed_steps_of_ne (by simp), stepsAll_renamedAll, closed_renamed, stepsAll_nil]
  simp [Tag.step?, BufferStep.closed, BufferStep.closed?]

/-- **A tree in which a part has been captured and flushed at once is laid out as it is
without**: the same is left at the root, or both layouts fail. -/
theorem together_capturedIn {info info' : Info} {name : String}
    (captured : CapturedIn info info' name ns ms) (settled : settledAll true ns)
    (ordered : BufferStep.Ordered [] (stepsAll ns)) {s t : State}
    (bound : ∀ g ∈ closed (stepsAll ns), g < s.groups.size)
    (bound' : ∀ g ∈ closed (stepsAll ms), g < t.groups.size) :
    Together Eq ((layAll .root ns).outcome s) ((layAll .root ms).outcome t) := by
  obtain ⟨before, body, after, k, rfl, e, grouping, numbers⟩ := captured
  -- the buffer and its flush stand where the part does
  obtain rfl : ms = before ++ ([.plain { info with group := some k }
      (.buffer (resolvedName name)) body, .plain info'.apart (.flush (resolvedName name) [k]) []] ++
        renamedAll (shift k) (fun _ => false) after) := e
  rw [closed_captured] at bound'
  rw [stepsAll_append, stepsAll_append] at ordered bound
  rw [BufferStep.ordered_append, BufferStep.ordered_append, List.nil_append] at ordered
  rw [BufferStep.closed_append, BufferStep.closed_append] at bound
  rw [settledAll_append, settledAll_append] at settled
  rw [stepsAll_append, BufferStep.closed_append] at numbers
  simp only [List.mem_append, or_imp, forall_and] at bound bound'
  obtain ⟨settledA, settledB, settledC⟩ := settled
  obtain ⟨orderedA, orderedB, orderedC⟩ := ordered
  obtain ⟨boundA, boundB, boundC⟩ := bound
  obtain ⟨boundA', ⟨boundB', boundK⟩, boundC'⟩ := bound'
  rw [layAll_append, layAll_append, layAll_append, layAll_append]
  -- what is before it is laid out as it is
  have first : Together _ ((layAll .root before).outcome s)
      ((layAll .root (renamedAll id (fun _ => false) before)).outcome t) :=
    paired_layAll Function.injective_id rfl before settledA orderedA s t
      (fun g hg => absurd hg List.not_mem_nil) fun g hg => ⟨boundA g hg, boundA' g hg⟩
  rw [renamedAll_id, List.nil_append] at first
  refine first.bind fun a a' all o o' => ?_
  obtain ⟨⟨rfl, -⟩, pairedA, sizeA, sizeA'⟩ := all
  -- the part itself
  have new : k ∉ closed (stepsAll before) ++ closed (stepsAll body) := by
    rw [numbers, List.mem_range]
    exact Nat.lt_irrefl k
  have second := @together_captureFlush info body _ info' (resolvedName name) k settledB orderedB
    grouping _ _ pairedA (fun g hg => ⟨sizeA ▸ boundB g hg, sizeA' ▸ boundB' g hg⟩)
    (sizeA' ▸ boundK k List.mem_cons_self) new
  rw [bind_assoc, bind_assoc]
  refine second.bind fun b b' all o o' => ?_
  obtain ⟨rfl, pairedB, sizeB, sizeB'⟩ := all
  -- what is after it is laid out with other numbers
  have early : ∀ g ∈ closed (stepsAll before) ++ closed (stepsAll body), shift k g = id g := by
    intro g hg
    rw [numbers, List.mem_range] at hg
    exact shift_of_lt hg
  have later := paired_layAll (shift_injective k) (rfl : Around.root.proper) after settledC orderedC _ _
    (pairedB.congr early) fun g hg => ⟨?_, ?_⟩
  · rw [bind_assoc, bind_assoc]
    refine later.bind fun c c' all o o' => ?_
    obtain ⟨⟨rfl, -⟩, -⟩ := all
    exact .ok rfl
  · rw [sizeB, sizeA]
    exact boundC g hg
  · rw [sizeB', sizeA']
    exact boundC' _ (List.mem_map_of_mem hg)

end Layout
end Stylesheet
