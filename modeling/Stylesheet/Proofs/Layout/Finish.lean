/-
# Finishing nodes

Most steps of the layout pass leave the groups alone (`Layout.Inert`), finishing a node that
is no group among them (`Layout.inert_finish`).  Finishing a group makes what it has come to
what is found under its number (`Layout.finish_group`).
-/

import Stylesheet.Proofs.Layout.Run
import Stylesheet.Proofs.Layout.Shape

namespace Stylesheet
namespace Layout

open Node

variable {α β : Type}

/-- A step of the pass that always comes to the same outcome and leaves the groups alone. -/
def Inert (x : Lay α) (a : α) : Prop :=
  ∀ s, x.outcome s = .ok a ∧ (x.after s).groups = s.groups

/-- To do nothing is inert. -/
theorem Inert.pure (a : α) : Inert (Pure.pure a : Lay α) a :=
  fun _ => ⟨rfl, rfl⟩

/-- One inert step after another is inert. -/
theorem Inert.bind {x : Lay α} {f : α → Lay β} {a : α} {b : β} (hx : Inert x a)
    (hf : Inert (f a) b) : Inert (x >>= f) b := by
  intro s
  obtain ⟨o, groups⟩ := hx s
  obtain ⟨o', groups'⟩ := hf (x.after s)
  rw [Lay.outcome_bind, Lay.after_bind, o]
  exact ⟨o', groups'.trans groups⟩

/-- A note is inert. -/
theorem inert_note (text : String) : Inert (note text) () :=
  fun _ => ⟨rfl, rfl⟩

/-- A step of the history is inert. -/
theorem inert_record (step : BufferStep) : Inert (record step) () :=
  fun _ => ⟨rfl, rfl⟩

/-- What is no group is not kept. -/
theorem inert_keep {n : Node} (h : n.info.group = none) : Inert (keep n) () :=
  fun s => ⟨outcome_keep n s, by rw [after_keep, h]⟩

/-- To keep nodes that are laid out is inert, as no group is among them. -/
theorem inert_forM_keep {ns : List Node} (h : laidOutAll ns) : Inert (ns.forM keep) () := by
  induction ns with
  | nil => exact .pure ()
  | cons n ns ih =>
    obtain ⟨first, others⟩ := laidOutAll_cons.1 h
    exact (inert_keep (group_of_laidOut first)).bind (ih others)

/-- To settle a node that is no group is inert. -/
theorem inert_settle {laid : Laid} (h : laid.own.info.group = none) :
    Inert (settle laid) laid :=
  (inert_keep h).bind (.pure laid)

/-- A flush finds its first group laid out, and the others. -/
theorem flushed_cons {groups : Groups} {g : GroupId} {n : Node} (found : groups[g]? = some n)
    (out : laidOutAll n.children) (captured : List GroupId) :
    flushed groups (g :: captured) = n.children ++ flushed groups captured := by
  rw [flushed, List.flatMap_cons, found]
  exact congrArg (· ++ _) (copyAll_of_laidOutAll out)

/-- What a block becomes is no group if the block is none. -/
theorem group_before (around : Around) {own : Node} (h : own.info.group = none)
    (others : List Node) : (Laid.before around own others).own.info.group = none := by
  unfold Laid.before
  split
  · exact h
  · have marked : (own.markGroupEnd true).info.group = none := by
      cases own <;> exact h
    cases around <;> cases others <;> first | exact h | exact marked

/-- A node that is no group is none when it has been laid out. -/
theorem group_finish {around : Around} {info : Info} {head : Head} (h : info.group = none)
    (laid : List Node) : (finish around info head laid).own.info.group = none := by
  cases head with
  | rule => exact group_before around (by exact h) _
  | media => exact group_before around (by exact h) _
  | supports => exact group_before around (by exact h) _
  | _ => exact h

variable {around : Around} {info : Info} {laid : List Node}

/-- The end of a node that is no group. -/
theorem inert_finish (proper : around.proper) {head : Head} (group : info.group = none)
    (out : laidOutAll laid) :
    Inert (do register around info head laid; settle (finish around info head laid))
      (finish around info head laid) := by
  have registers : Inert (register around info head laid) () := by
    cases head with
    | media query resolved =>
      exact inert_forM_keep (leaves_joinedQueries resolved (risen_spec proper out).1).laidOut
    | buffer name =>
      rw [register, group]
      exact .pure ()
    | _ => exact .pure ()
  exact registers.bind (inert_settle (group_finish group laid))

/-- The end of a group, which from then on is found as it is laid out. -/
theorem finish_group {name : BufferName} {g : GroupId} (group : info.group = some g) (s : State) :
    let x : Lay Laid := do
      register around info (.buffer name) laid
      settle (finish around info (.buffer name) laid)
    x.outcome s = .ok (finish around info (.buffer name) laid) ∧
      (x.after s).groups =
        s.groups.setIfInBounds g (.plain info (.buffer name) (risen around laid)) := by
  intro x
  have registers : Inert (register around info (.buffer name) laid) () := by
    rw [register, group]
    exact inert_record _
  obtain ⟨o, groups⟩ := registers s
  have kept (s : State) : ((keep (finish around info (.buffer name) laid).own).after s).groups =
      s.groups.setIfInBounds g (.plain info (.buffer name) (risen around laid)) := by
    have own : (finish around info (.buffer name) laid).own.info.group = some g := group
    rw [after_keep, own]
    rfl
  constructor
  · rw [Lay.outcome_bind, o, settle, Lay.outcome_bind, outcome_keep]
    rfl
  · rw [Lay.after_bind, o, settle, Lay.after_bind, outcome_keep, ← groups]
    exact kept _

end Layout
end Stylesheet
