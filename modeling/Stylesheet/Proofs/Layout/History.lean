/-
# The order of the layout pass

The pass goes through a tree in document order.  The groups that it has come to the end
of and the flushes that it has replaced are, one after the other, those of a walk through
the tree (`Layout.follows_layNode`); if it fails, it has gone through the first of them.
-/

import Stylesheet.Proofs.Layout.Run
import Stylesheet.Proofs.Node.Walk

namespace Stylesheet
namespace Layout

variable {bare : Bool} {α β : Type} {u v : List BufferStep}

/-- A step of the pass goes along a walk, and to its end if it does not fail. -/
def Follows (x : Lay α) (walk : List BufferStep) : Prop :=
  ∀ s, ∃ new, (x.after s).history.toList = s.history.toList ++ new ∧
    new.filter BufferStep.live <+: walk ∧
      ((x.outcome s).isOk → new.filter BufferStep.live = walk)

namespace Follows

/-- A step that leaves the history follows no walk. -/
theorem of_history_eq {x : Lay α} (h : ∀ s, (x.after s).history = s.history) :
    Follows x [] :=
  fun s => ⟨[], by rw [h, List.append_nil], List.nil_prefix, fun _ => rfl⟩

/-- To do nothing follows no walk. -/
theorem pure (a : α) : Follows (Pure.pure a : Lay α) [] :=
  .of_history_eq fun _ => rfl

/-- Two steps follow two walks, one after the other. -/
theorem bind {x : Lay α} {f : α → Lay β} (hx : Follows x u) (hf : ∀ a, Follows (f a) v) :
    Follows (x >>= f) (u ++ v) := by
  intro s
  obtain ⟨new, e, part, whole⟩ := hx s
  rw [Lay.after_bind, Lay.outcome_bind]
  cases o : x.outcome s with
  | error k =>
    exact ⟨new, e, part.trans (List.prefix_append u v), fun ok => nomatch ok⟩
  | ok a =>
    rw [o] at whole
    obtain ⟨new', e', part', whole'⟩ := hf a (x.after s)
    refine ⟨new ++ new', ?_, ?_, fun ok => ?_⟩
    · rw [e', e, List.append_assoc]
    · rw [List.filter_append, whole rfl]
      exact (List.prefix_append_right_inj u).2 part'
    · rw [List.filter_append, whole rfl, whole' ok]

/-- A step that goes nowhere, and what follows. -/
theorem quiet_bind {x : Lay α} {f : α → Lay β} (hx : Follows x [])
    (hf : ∀ a, Follows (f a) v) : Follows (x >>= f) v :=
  hx.bind hf

/-- A step, and what follows that goes nowhere. -/
theorem bind_quiet {x : Lay α} {f : α → Lay β} (hx : Follows x u)
    (hf : ∀ a, Follows (f a) []) : Follows (x >>= f) u := by
  rw [← List.append_nil u]
  exact hx.bind hf

end Follows

/-- A note follows no walk. -/
theorem follows_note (text : String) : Follows (note text) [] :=
  .of_history_eq fun _ => rfl

/-- A step of the history is recorded if it is live. -/
theorem follows_record (step : BufferStep) :
    Follows (record step) ([step].filter BufferStep.live) :=
  fun _ => ⟨[step], Array.toList_push, List.prefix_rfl, fun _ => rfl⟩

/-- Keeping a node leaves the history. -/
theorem follows_keep (n : Node) : Follows (keep n) [] := by
  refine .of_history_eq fun s => ?_
  rw [after_keep]
  split <;> rfl

/-- Keeping some nodes leaves the history. -/
theorem follows_forM_keep (ns : List Node) : Follows (ns.forM keep) [] := by
  induction ns with
  | nil => exact .pure ()
  | cons n ns ih => exact (follows_keep n).quiet_bind fun _ => ih

/-- Settling a node leaves the history. -/
theorem follows_settle (laid : Laid) : Follows (settle laid) [] :=
  (follows_keep laid.own).quiet_bind fun _ => .pure laid

/-- Replacing a flush records it, if it has been evaluated. -/
theorem follows_layFlush (around : Around) (info : Info) (name : BufferName)
    (captured : List GroupId) :
    Follows (layFlush around info name captured)
      ([.flush name.resolved captured].filter BufferStep.live) := by
  refine .quiet_bind (.of_history_eq fun _ => rfl) fun s => ?_
  refine (follows_record _).bind_quiet fun _ => (follows_note _).quiet_bind fun _ => ?_
  cases around with
  | root =>
    dsimp only
    split
    · exact .of_history_eq fun _ => rfl
    · exact .pure _
  | _ => exact .pure _

/-- The end of a group is the last step of the walk through it. -/
theorem follows_register (around : Around) (info : Info) (head : Head) (cs laid : List Node) :
    Follows (register around info head laid)
      (Tag.step? (.closes (.plain info head cs))).toList := by
  cases head with
  | media query resolved => exact follows_forM_keep _
  | buffer name =>
    cases g : info.group with
    | none =>
      simp only [register, Tag.step?, g]
      exact .pure ()
    | some g' =>
      simp only [register, Tag.step?, g]
      exact follows_record (.group g' name.resolved)
  | _ => exact .pure ()

/-- What the pass does not go into has no steps in it but its own. -/
theorem follows_layLeaf (around : Around) (info : Info) {head : Head} {cs : List Node}
    (leaf : isLeaf head) (fresh : Node.freshAll bare cs) :
    Follows (layLeaf around info head cs) (Node.plain info head cs).steps := by
  rw [Node.steps_plain, Node.stepsAll_of_freshAll fresh]
  cases head with
  | flush name captured =>
    have step : [BufferStep.flush name.resolved captured].filter BufferStep.live =
        (Option.guard BufferStep.live (.flush name.resolved captured)).toList := by
      rw [List.filter_cons, Option.guard]
      cases BufferStep.live (.flush name.resolved captured) <;> rfl
    show Follows _ ((Option.guard BufferStep.live (.flush name.resolved captured)).toList ++
      [] ++ [])
    rw [← step, List.append_nil, List.append_nil]
    exact follows_layFlush around info name captured
  | extend selector resolved => exact (follows_note _).quiet_bind fun _ => .pure _
  | declaration => exact .pure _
  | comment => exact .pure _
  | _ => cases leaf

/-- What the pass goes into has no step before its content. -/
theorem opens_eq_none (info : Info) {head : Head} (cs : List Node) (inner : isLeaf head = false) :
    Tag.step? (.opens (.plain info head cs)) = none := by
  cases head with
  | flush => cases inner
  | _ => rfl

/-- What is in a node that the pass does not go into has not been evaluated. -/
theorem freshAll_of_isLeaf {info : Info} {head : Head} {cs : List Node}
    (h : (Node.plain info head cs).settled bare ∨ (Node.plain info head cs).fresh bare)
    (leaf : isLeaf head) : Node.freshAll bare cs := by
  rcases h with h | h
  · have inner := Node.inner_of_settled h
    cases head with
    | declaration | comment | extend | flush => exact inner
    | _ => cases leaf
  · exact Node.inner_of_fresh h

/-- What is in a node has all been evaluated, or nothing of it. -/
theorem all_of_settled_or_fresh {info : Info} {head : Head} {cs : List Node}
    (h : (Node.plain info head cs).settled bare ∨ (Node.plain info head cs).fresh bare) :
    Node.settledAll bare cs ∨ Node.freshAll bare cs := by
  rcases h with h | h
  · have inner := Node.inner_of_settled h
    split at inner
    · exact .inl inner
    · exact .inr inner
  · exact .inr (Node.inner_of_fresh h)

mutual

/-- **The pass follows a walk through the tree.** -/
theorem follows_layNode (around : Around) (n : Node) (h : n.settled bare ∨ n.fresh bare) :
    Follows (layNode around n) n.steps := by
  match n with
  | .plain info head cs =>
    rw [layNode]
    split
    · rename_i leaf
      exact (follows_layLeaf around info leaf (freshAll_of_isLeaf h leaf)).bind_quiet
        fun _ => follows_settle _
    · rename_i inner
      rw [Node.steps_plain, opens_eq_none info cs (Bool.not_eq_true _ ▸ inner)]
      refine (follows_layAll _ cs (all_of_settled_or_fresh h)).bind fun laid => ?_
      exact (follows_register around info head cs laid).bind_quiet fun _ => follows_settle _
  | .cond info test cs o =>
    rcases h with h | h
    · cases h
    · rw [Node.fresh, Bool.and_eq_true, Bool.and_eq_true] at h
      rw [layNode, Node.steps_cond]
      refine (follows_layAll .other cs (.inr h.1.2)).bind fun laid => ?_
      exact (follows_layOption around o h.2).bind_quiet fun _ => follows_settle _

/-- Laying out some nodes goes along the walk through them. -/
theorem follows_layAll (around : Around) (ns : List Node)
    (h : Node.settledAll bare ns ∨ Node.freshAll bare ns) :
    Follows (layAll around ns) (Node.stepsAll ns) := by
  match ns with
  | [] => exact .pure []
  | n :: ns =>
    rw [Node.settledAll, Bool.and_eq_true, Node.freshAll, Bool.and_eq_true] at h
    rw [layAll, Node.stepsAll_cons]
    refine (follows_layNode around n (h.imp And.left And.left)).bind fun first => ?_
    exact (follows_layAll around ns (h.imp And.right And.right)).bind_quiet fun _ => .pure _

/-- Laying out a clause goes along the walk through it. -/
theorem follows_layOption (around : Around) (o : Option Node) (h : Node.freshOption bare o) :
    Follows (layOption around o) ((Node.tagsOption o).filterMap Tag.step?) := by
  match o with
  | none => exact .pure none
  | some n =>
    rw [layOption]
    exact (follows_layNode around n (.inr h)).bind_quiet fun _ => .pure _

end

end Layout
end Stylesheet
