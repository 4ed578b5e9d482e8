/-
# What the groups of a tree hold

`Node.contents` fills the groups of a tree one after the other, so it says what a group
holds only if the flushes in its body refer to groups that have ended before.  A tree is
`BufferStep.Ordered` if that is so, and no two groups are the same; then every group holds
what its body places, with the flushes in it filled by the very same contents
(`Node.contents_eq`).
-/

import Stylesheet.Proofs.Layout.Placement
import Stylesheet.Proofs.Node.Order

namespace Stylesheet

namespace Node

open BufferStep (closed)

/-- Two contents agree on the groups of the flushes of a walk. -/
def Agree (content content' : Contents) (walk : List BufferStep) : Prop :=
  ∀ name captured, .flush name captured ∈ walk → ∀ g ∈ captured, content g = content' g

namespace Agree

variable {content content' : Contents} {walk walk' : List BufferStep}

/-- Two contents agree on the first part of a walk. -/
theorem left (h : Agree content content' (walk ++ walk')) : Agree content content' walk :=
  fun name captured mem => h name captured (List.mem_append_left _ mem)

/-- Two contents agree on the second part of a walk. -/
theorem right (h : Agree content content' (walk ++ walk')) : Agree content content' walk' :=
  fun name captured mem => h name captured (List.mem_append_right _ mem)

/-- The groups of a flush that is directly on the way. -/
theorem captured {info : Info} {name : BufferName} {groups : List GroupId} {cs : List Node}
    (h : Agree content content' (plain info (.flush name groups) cs).steps) {g : GroupId}
    (hg : g ∈ groups) : content g = content' g := by
  have live : (BufferStep.flush name.resolved groups).live := by
    rw [BufferStep.live, Bool.or_eq_true, Bool.not_eq_true']
    exact .inr (by cases groups with | nil => cases hg | cons => rfl)
  refine h name.resolved groups ?_ g hg
  rw [steps_plain, Tag.step?, Option.guard_eq_some_iff.2 ⟨rfl, live⟩]
  exact List.mem_cons_self

end Agree

mutual

/-- What a tree places depends on the groups of its flushes only. -/
theorem placed_congr {content content' : Contents} (selector : Option (List String)) (n : Node)
    (h : Agree content content' n.steps) :
    n.placed content selector = n.placed content' selector := by
  match n with
  | .plain info head cs =>
    cases head with
    | declaration | comment | buffer => rfl
    | flush name captured =>
      refine congrArg List.flatten (List.map_congr_left fun g hg => ?_)
      exact congrArg (List.map _) (h.captured hg)
    | _ =>
      rw [steps_plain] at h
      exact congrArg (List.map (Placed.within _)) (placedAll_congr _ cs h.left.right)
  | .cond info t cs o =>
    rw [steps_cond] at h
    rw [placed, placed, placedAll_congr none cs h.left]
    match o with
    | none => rfl
    | some clause =>
      have clauseEq := placed_congr none clause h.right
      rw [placedOption, placedOption, clauseEq]

/-- Some nodes place the same with contents that agree on their flushes. -/
theorem placedAll_congr {content content' : Contents} (selector : Option (List String))
    (ns : List Node) (h : Agree content content' (stepsAll ns)) :
    placedAll content selector ns = placedAll content' selector ns := by
  match ns with
  | [] => rfl
  | n :: ns =>
    rw [stepsAll_cons] at h
    rw [placedAll, placedAll, placed_congr selector n h.left, placedAll_congr selector ns h.right]

end

/-- The flushes in the body of every group refer to groups before it, the groups `done`
among them, and no two groups are the same. -/
def Body.Ordered (done : List GroupId) : List Body → Prop
  | [] => True
  | b :: bs =>
    b.group ∉ done ∧
      (∀ name captured, .flush name captured ∈ stepsAll b.children → captured ⊆ done) ∧
      Ordered (done ++ [b.group]) bs

/-- The groups of two lists are in order if the second ones are after the first. -/
theorem Body.ordered_append {done : List GroupId} {bs bs' : List Body} :
    Body.Ordered done (bs ++ bs') ↔
      Body.Ordered done bs ∧ Body.Ordered (done ++ bs.map Body.group) bs' := by
  induction bs generalizing done with
  | nil => simp [Body.Ordered]
  | cons b bs ih =>
    have e : done ++ (b :: bs).map Body.group = (done ++ [b.group]) ++ bs.map Body.group := by
      rw [List.append_assoc]
      rfl
    rw [e, List.cons_append, Body.Ordered, Body.Ordered, ih, and_assoc, and_assoc]

mutual

/-- The groups in a tree are those that end in a walk through it. -/
theorem map_group_bodies (selector : Option (List String)) (n : Node) :
    (n.bodies selector).map Body.group = closed n.steps := by
  match n with
  | .plain info head cs =>
    rw [bodies, List.map_append, map_group_bodiesAll _ cs, closed_steps]
    refine congrArg _ ?_
    cases head with
    | buffer name => cases e : info.group <;> simp [Body.ofNode, Tag.step?, e, BufferStep.closed?]
    | _ => rfl
  | .cond info t cs o =>
    rw [bodies, List.map_append, map_group_bodiesAll none cs, steps_cond,
      BufferStep.closed_append]
    refine congrArg _ ?_
    match o with
    | none => rfl
    | some clause => exact map_group_bodies none clause

/-- The groups of some nodes are those that their steps close. -/
theorem map_group_bodiesAll (selector : Option (List String)) (ns : List Node) :
    (bodiesAll selector ns).map Body.group = closed (stepsAll ns) := by
  match ns with
  | [] => rfl
  | n :: ns =>
    rw [bodiesAll, List.map_append, map_group_bodies selector n, map_group_bodiesAll selector ns,
      stepsAll_cons, BufferStep.closed_append]

end

mutual

/-- The groups of a tree are in order if its steps are. -/
theorem ordered_bodies {done : List GroupId} (selector : Option (List String)) (n : Node)
    (h : BufferStep.Ordered done n.steps) : Body.Ordered done (n.bodies selector) := by
  match n with
  | .plain info head cs =>
    obtain ⟨inner, last⟩ := ordered_steps h
    rw [bodies, Body.ordered_append, map_group_bodiesAll]
    refine ⟨ordered_bodiesAll _ cs inner, ?_⟩
    cases head with
    | buffer name =>
      rw [Tag.step?] at last
      rw [Body.ofNode]
      cases e : info.group with
      | none => trivial
      | some g =>
        rw [e] at last
        exact ⟨last.1, fun _ _ mem => inner.captured_subset mem, trivial⟩
    | _ => trivial
  | .cond info t cs o =>
    rw [steps_cond, BufferStep.ordered_append] at h
    rw [bodies, Body.ordered_append, map_group_bodiesAll]
    refine ⟨ordered_bodiesAll none cs h.1, ?_⟩
    match o with
    | none => trivial
    | some clause => exact ordered_bodies none clause h.2

/-- The groups of some nodes are in order if their steps are. -/
theorem ordered_bodiesAll {done : List GroupId} (selector : Option (List String))
    (ns : List Node) (h : BufferStep.Ordered done (stepsAll ns)) :
    Body.Ordered done (bodiesAll selector ns) := by
  match ns with
  | [] => trivial
  | n :: ns =>
    rw [stepsAll_cons, BufferStep.ordered_append] at h
    rw [bodiesAll, Body.ordered_append, map_group_bodies]
    exact ⟨ordered_bodies selector n h.1, ordered_bodiesAll selector ns h.2⟩

end

/-- Groups that are filled in their order hold what their bodies place. -/
theorem Body.foldl_fill {done : List GroupId} {bs : List Body} (h : Body.Ordered done bs)
    (content : Contents) :
    (∀ g ∈ done, bs.foldl Body.fill content g = content g) ∧
      ∀ b ∈ bs, bs.foldl Body.fill content b.group =
        placedAll (bs.foldl Body.fill content) b.selector b.children := by
  induction bs generalizing done content with
  | nil => exact ⟨fun _ _ => rfl, fun _ hb => nomatch hb⟩
  | cons b bs ih =>
    obtain ⟨new, flushes, rest⟩ := h
    obtain ⟨old, filled⟩ := ih rest (b.fill content)
    rw [List.foldl_cons]
    have kept (g : GroupId) (hg : g ∈ done) :
        bs.foldl Body.fill (b.fill content) g = content g := by
      rw [old g (List.mem_append_left _ hg), Body.fill,
        Function.update_of_ne (ne_of_mem_of_not_mem hg new)]
    refine ⟨kept, fun b' hb => ?_⟩
    rcases List.mem_cons.1 hb with rfl | hb
    · rw [old b'.group (List.mem_append_right _ List.mem_cons_self), Body.fill,
        Function.update_self]
      refine placedAll_congr _ _ fun name captured mem g hg => ?_
      exact (kept g (flushes name captured mem hg)).symm
    · exact filled b' hb

/-- **A group holds what its body places.** -/
theorem contents_eq {root : Node} (h : BufferStep.Ordered [] root.steps) {b : Body}
    (hb : b ∈ root.bodies none) :
    root.contents b.group = placedAll root.contents b.selector b.children :=
  (Body.foldl_fill (ordered_bodies none root h) _).2 b hb

end Node
end Stylesheet
