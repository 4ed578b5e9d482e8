/-
# The order of groups and flushes

A walk through a tree comes past the ends of groups and past flushes.  It is
`BufferStep.Ordered` if every flush refers to groups that have ended before it and no
group ends twice.
-/

import Stylesheet.Proofs.Node.Walk

namespace Stylesheet

namespace BufferStep

/-- The groups that end in a walk. -/
abbrev closed (walk : List BufferStep) : List GroupId :=
  walk.filterMap closed?

/-- The groups that two walks close, one after the other. -/
theorem closed_append (walk walk' : List BufferStep) :
    closed (walk ++ walk') = closed walk ++ closed walk' :=
  List.filterMap_append

/-- Nothing ends where a node is entered. -/
theorem closed_opens (n : Node) : closed (Tag.step? (.opens n)).toList = [] := by
  cases e : Tag.step? (.opens n) with
  | none => rfl
  | some step =>
    match n with
    | .plain info (.flush name captured) cs =>
      obtain ⟨rfl, -⟩ := Option.guard_eq_some_iff.1 e
      rfl

/-- Every flush of a walk refers to groups that have ended before it, the groups `done`
among them, and no group ends twice. -/
def Ordered (done : List GroupId) : List BufferStep → Prop
  | [] => True
  | group g _ :: walk => g ∉ done ∧ Ordered (done ++ [g]) walk
  | flush _ captured :: walk => captured ⊆ done ∧ Ordered done walk

/-- A walk after another one is in order with the groups that the first has closed. -/
theorem ordered_append {done : List GroupId} {walk walk' : List BufferStep} :
    Ordered done (walk ++ walk') ↔
      Ordered done walk ∧ Ordered (done ++ closed walk) walk' := by
  induction walk generalizing done with
  | nil => simp [Ordered]
  | cons step walk ih =>
    cases step with
    | group g name =>
      have e : done ++ closed (group g name :: walk) = (done ++ [g]) ++ closed walk := by
        rw [List.append_assoc]
        rfl
      rw [e, List.cons_append, Ordered, Ordered, ih, and_assoc]
    | flush name captured =>
      rw [List.cons_append, Ordered, Ordered, ih, and_assoc]
      rfl

/-- A flush on the way refers to groups that have ended by the end of it. -/
theorem Ordered.captured_subset {done : List GroupId} {walk : List BufferStep}
    (h : Ordered done walk) {name : Option String} {captured : List GroupId}
    (mem : .flush name captured ∈ walk) : captured ⊆ done ++ closed walk := by
  obtain ⟨before, after, rfl⟩ := List.append_of_mem mem
  have here := (ordered_append.1 h).2.1
  intro g hg
  rcases List.mem_append.1 (here hg) with old | new
  · exact List.mem_append_left _ old
  · rw [closed_append]
    exact List.mem_append_right _ (List.mem_append_left _ new)

/-- A walk is ordered if its flushes refer to what has ended, and nothing ends twice. -/
theorem ordered_of_split {walk : List BufferStep} (once : (closed walk).Nodup)
    (ended : ∀ before name captured after, walk = before ++ .flush name captured :: after →
      captured ⊆ closed before) : Ordered [] walk := by
  suffices h : ∀ before after, walk = before ++ after → Ordered (closed before) after from
    h [] walk rfl
  intro before after e
  induction after generalizing before with
  | nil => trivial
  | cons step after ih =>
    have rest := ih (before ++ [step]) (by rw [e, List.append_assoc]; rfl)
    rw [closed_append] at rest
    cases step with
    | group g name =>
      refine ⟨?_, rest⟩
      rw [e, closed_append] at once
      exact fun mem => (List.nodup_append.1 once).2.2 g mem g List.mem_cons_self rfl
    | flush name captured =>
      have nothing : closed [flush name captured] = [] := rfl
      rw [nothing, List.append_nil] at rest
      exact ⟨ended before name captured after e, rest⟩

end BufferStep

namespace Node

open BufferStep (closed)

/-- What ends in a node ends inside it or is the node. -/
theorem closed_steps (info : Info) (head : Head) (cs : List Node) :
    closed (plain info head cs).steps =
      closed (stepsAll cs) ++ closed (Tag.step? (.closes (plain info head cs))).toList := by
  rw [steps_plain, BufferStep.closed_append, BufferStep.closed_append, BufferStep.closed_opens,
    List.nil_append]

/-- A node that is no buffer closes the groups in it and no other. -/
theorem closed_steps_of_ne {info : Info} {head : Head} (h : ∀ name, head ≠ .buffer name)
    (cs : List Node) : closed (plain info head cs).steps = closed (stepsAll cs) := by
  rw [closed_steps]
  cases head with
  | buffer name => exact (h name rfl).elim
  | _ => exact List.append_nil _

/-- What is inside a node comes before its end. -/
theorem ordered_steps {done : List GroupId} {info : Info} {head : Head} {cs : List Node}
    (h : BufferStep.Ordered done (plain info head cs).steps) :
    BufferStep.Ordered done (stepsAll cs) ∧
      BufferStep.Ordered (done ++ closed (stepsAll cs))
        (Tag.step? (.closes (plain info head cs))).toList := by
  rw [steps_plain, BufferStep.ordered_append, BufferStep.ordered_append,
    BufferStep.closed_append, BufferStep.closed_opens, List.nil_append, List.append_nil] at h
  exact ⟨h.1.2, h.2⟩

/-- The step of a flush on the walk through a tree. -/
theorem step?_opens_flush (info : Info) {name : BufferName} {captured : List GroupId}
    (cs : List Node) (live : (BufferStep.flush name.resolved captured).live) :
    Tag.step? (.opens (plain info (.flush name captured) cs)) =
      some (.flush name.resolved captured) :=
  Option.guard_eq_some_iff.2 ⟨rfl, live⟩

/-- A flush that leads to no step has captured nothing. -/
theorem captured_eq_nil {name : Option String} {captured : List GroupId}
    (idle : ¬ (BufferStep.flush name captured).live) : captured = [] := by
  simp only [BufferStep.live, Bool.or_eq_true, Bool.not_eq_true', not_or] at idle
  simpa using idle.2

/-- A flush in a tree whose flushes refer to groups that have ended does so itself. -/
theorem captured_subset {done : List GroupId} {info : Info} {name : BufferName}
    {captured : List GroupId} {cs : List Node}
    (h : BufferStep.Ordered done (plain info (.flush name captured) cs).steps) :
    captured ⊆ done := by
  by_cases live : (BufferStep.flush name.resolved captured).live
  · rw [steps_plain, step?_opens_flush info cs live] at h
    exact h.1
  · rw [captured_eq_nil live]
    exact List.nil_subset done

end Node
end Stylesheet
