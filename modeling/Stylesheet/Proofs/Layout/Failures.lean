/-
# How a layout fails

A layout fails only for a flush of declarations at the root, with a diagnostic at the place
of the flush (`Layout.stops_layNode`).
-/

import Stylesheet.Proofs.Layout.Run
import Stylesheet.Proofs.Node.Expansion
import Stylesheet.Proofs.Value.Range

namespace Stylesheet
namespace Layout

variable {α β : Type} {stops : Failure → Prop}

/-- A step that, if it fails, fails in some way. -/
def Lay.Stops (stops : Failure → Prop) (x : Lay α) : Prop :=
  ∀ s, Ends stops (x.outcome s) fun _ => True

namespace Lay.Stops

/-- A step that does nothing comes to an end. -/
theorem pure (a : α) : Lay.Stops stops (Pure.pure a) :=
  fun _ => .done

/-- One step after another fails as either may. -/
theorem bind {x : Lay α} {f : α → Lay β} (hx : x.Stops stops) (hf : ∀ a, (f a).Stops stops) :
    (x >>= f).Stops stops := by
  intro s
  have ends := hx s
  rw [Lay.outcome_bind]
  generalize x.outcome s = o at ends
  cases ends with
  | ok => exact hf _ _
  | error h => exact .error h

/-- A step that always has an outcome comes to an end. -/
theorem of_outcome {x : Lay α} (h : ∀ s, ∃ a, x.outcome s = .ok a) : x.Stops stops := by
  intro s
  obtain ⟨a, e⟩ := h s
  exact e ▸ .done

/-- A step for each member of a list fails as one of them may. -/
theorem forM {l : List α} {f : α → Lay Unit} (h : ∀ a, (f a).Stops stops) :
    (l.forM f).Stops stops := by
  induction l with
  | nil => exact .pure ()
  | cons a l ih => exact .bind (h a) fun _ => ih

end Lay.Stops

/-- A node is kept without failing. -/
theorem stops_keep (n : Node) : (keep n).Stops stops :=
  .of_outcome fun s => ⟨(), outcome_keep n s⟩

/-- A node is settled without failing. -/
theorem stops_settle (laid : Laid) : (settle laid).Stops stops :=
  .bind (stops_keep laid.own) fun _ => .pure laid

/-- A note is left without failing. -/
theorem stops_note (text : String) : (note text).Stops stops :=
  .of_outcome fun _ => ⟨(), rfl⟩

/-- A step of the history is recorded without failing. -/
theorem stops_record (step : BufferStep) : (record step).Stops stops :=
  .of_outcome fun _ => ⟨(), rfl⟩

/-- The end of a group is registered without failing. -/
theorem stops_register (around : Around) (info : Info) (head : Head) (laid : List Node) :
    (register around info head laid).Stops stops := by
  unfold register
  split
  · exact .forM stops_keep
  · split
    · exact stops_record _
    · exact .pure ()
  · exact .pure ()

/-- What the pass does not go into may fail where it stands. -/
theorem stops_layLeaf (around : Around) {info : Info} (head : Head) (children : List Node)
    (h : ∀ cause, stops (.diagnostic { cause, span := info.span })) :
    (layLeaf around info head children).Stops stops := by
  unfold layLeaf
  split
  · exact .bind (stops_note _) fun _ => .pure _
  · refine .bind (.of_outcome fun s => ⟨s, rfl⟩) fun s => ?_
    refine .bind (stops_record _) fun _ => .bind (stops_note _) fun _ => ?_
    split
    · split
      · exact fun _ => .error (h _)
      · exact .pure _
    · exact .pure _
  · exact .pure _

mutual

/-- **A layout fails at a node**, with a diagnostic. -/
theorem stops_layNode (around : Around) (n : Node)
    (h : ∀ m ∈ n.nodes, ∀ cause, stops (.diagnostic { cause, span := m.info.span })) :
    (layNode around n).Stops stops := by
  match n with
  | .plain info head children =>
    rw [Node.nodes, List.forall_mem_cons] at h
    rw [layNode]
    split
    · exact .bind (stops_layLeaf _ _ _ h.1) fun _ => stops_settle _
    · exact .bind (stops_layAll _ children h.2) fun _ =>
        .bind (stops_register _ _ _ _) fun _ => stops_settle _
  | .cond info test children otherwise =>
    rw [Node.nodes, List.forall_mem_cons, List.forall_mem_append] at h
    rw [layNode]
    exact .bind (stops_layAll _ children h.2.1) fun _ =>
      .bind (stops_layOption around otherwise h.2.2) fun _ => stops_settle _

/-- Some nodes may fail where they or nodes in them stand. -/
theorem stops_layAll (around : Around) (ns : List Node)
    (h : ∀ m ∈ Node.nodesAll ns, ∀ cause, stops (.diagnostic { cause, span := m.info.span })) :
    (layAll around ns).Stops stops := by
  match ns with
  | [] =>
    rw [layAll]
    exact .pure []
  | n :: ns =>
    rw [Node.nodesAll, List.forall_mem_append] at h
    rw [layAll]
    exact .bind (stops_layNode around n h.1) fun _ =>
      .bind (stops_layAll around ns h.2) fun _ => .pure _

/-- A clause may fail where it or nodes in it stand. -/
theorem stops_layOption (around : Around) (o : Option Node)
    (h : ∀ m ∈ Node.nodesOption o, ∀ cause, stops (.diagnostic { cause, span := m.info.span })) :
    (layOption around o).Stops stops := by
  match o with
  | none =>
    rw [layOption]
    exact .pure none
  | some n =>
    rw [layOption]
    exact .bind (stops_layNode around n h) fun _ => .pure _

end

/-- A document fails at a node in it. -/
theorem stops_layDocument {info : Info} {cs : List Node}
    (h : ∀ m ∈ Node.nodesAll cs, ∀ cause, stops (.diagnostic { cause, span := m.info.span })) :
    (layNode .other (.plain info .root cs)).Stops stops := by
  rw [layNode]
  exact .bind (stops_layAll _ cs h) fun _ => .bind (stops_register _ _ _ _) fun _ => stops_settle _

end Layout

/-- A layout of a document ends as its root does. -/
theorem Document.ends_layOut {stops : Failure → Prop} {tree : Captured Node} {log : Log}
    (h : (Layout.layNode .other tree.content).Stops stops) :
    Ends stops (Document.layOut tree log).1 fun _ => True := by
  have ends := h { groups := tree.groups, log }
  unfold Document.layOut
  unfold Layout.Lay.outcome at ends
  generalize (Layout.layNode .other tree.content).run.run _ = r at ends
  obtain ⟨outcome, state⟩ := r
  cases ends with
  | ok => exact .done
  | error h => exact .error h

end Stylesheet
