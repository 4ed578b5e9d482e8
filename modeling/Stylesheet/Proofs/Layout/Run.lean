/-
# Running the layout pass

A step of the pass started in a state has an outcome and leaves a state behind,
`Layout.Lay.outcome` and `Layout.Lay.after`.  The rules here say what both are for the
steps that the pass is made of.
-/

import Stylesheet.Layout

namespace Stylesheet
namespace Layout

variable {α β : Type}

/-- What a step started in a state comes to. -/
def Lay.outcome (x : Lay α) (s : State) : Except Failure α :=
  (x.run.run s).1

/-- The state that a step started in a state leaves behind. -/
def Lay.after (x : Lay α) (s : State) : State :=
  (x.run.run s).2

namespace Lay

@[simp] theorem outcome_pure (a : α) (s : State) : (pure a : Lay α).outcome s = .ok a := rfl

@[simp] theorem after_pure (a : α) (s : State) : (pure a : Lay α).after s = s := rfl

@[simp] theorem outcome_throw (f : Failure) (s : State) :
    (throw f : Lay α).outcome s = .error f := rfl

@[simp] theorem after_throw (f : Failure) (s : State) : (throw f : Lay α).after s = s := rfl

/-- A step after another starts in the state that the first leaves. -/
theorem run_bind (x : Lay α) (f : α → Lay β) (s : State) :
    (x >>= f).run.run s = match x.outcome s with
      | .ok a => (f a).run.run (x.after s)
      | .error e => (.error e, x.after s) := by
  simp only [outcome, after, ExceptT.run_bind, StateT.run_bind]
  generalize x.run.run s = r
  obtain ⟨o, s'⟩ := r
  cases o <;> rfl

/-- What two steps come to. -/
theorem outcome_bind (x : Lay α) (f : α → Lay β) (s : State) :
    (x >>= f).outcome s = match x.outcome s with
      | .ok a => (f a).outcome (x.after s)
      | .error e => .error e := by
  rw [outcome, run_bind]
  cases x.outcome s <;> rfl

/-- The state that two steps leave. -/
theorem after_bind (x : Lay α) (f : α → Lay β) (s : State) :
    (x >>= f).after s = match x.outcome s with
      | .ok a => (f a).after (x.after s)
      | .error _ => x.after s := by
  rw [after, run_bind]
  cases x.outcome s <;> rfl

/-- What a step that comes to an end has gone through. -/
theorem bind_eq_ok {x : Lay α} {f : α → Lay β} {s : State} {b : β}
    (h : (x >>= f).outcome s = .ok b) :
    ∃ a, x.outcome s = .ok a ∧ (f a).outcome (x.after s) = .ok b ∧
      (x >>= f).after s = (f a).after (x.after s) := by
  rw [outcome_bind] at h
  cases e : x.outcome s with
  | error k =>
    rw [e] at h
    cases h
  | ok a =>
    rw [e] at h
    exact ⟨a, rfl, h, by rw [after_bind, e]⟩

end Lay

@[simp] theorem outcome_note (text : String) (s : State) : (note text).outcome s = .ok () := rfl

@[simp] theorem after_note (text : String) (s : State) :
    (note text).after s =
      { s with log := s.log.push { level := .debug, stage := .layout, text } } := rfl

@[simp] theorem outcome_record (step : BufferStep) (s : State) :
    (record step).outcome s = .ok () := rfl

@[simp] theorem after_record (step : BufferStep) (s : State) :
    (record step).after s = { s with history := s.history.push step } := rfl

@[simp] theorem outcome_keep (n : Node) (s : State) : (keep n).outcome s = .ok () := by
  unfold keep
  cases n.info.group <;> rfl

/-- A node is kept under its number, if it is a group. -/
theorem after_keep (n : Node) (s : State) :
    (keep n).after s = match n.info.group with
      | none => s
      | some g => { s with groups := s.groups.setIfInBounds g n } := by
  unfold keep
  cases n.info.group <;> rfl

/-! ### What is laid out has been laid out in parts -/

section

variable {around : Around} {info : Info} {head : Head} {n : Node} {ns cs left : List Node}
  {laid : Laid} {s : State}

/-- Nodes are laid out one after the other. -/
theorem layAll_cons_eq_ok (o : (layAll around (n :: ns)).outcome s = .ok left) :
    ∃ first others, (layNode around n).outcome s = .ok first ∧
      (layAll around ns).outcome ((layNode around n).after s) = .ok others ∧
      left = first.left ++ others := by
  rw [layAll] at o
  obtain ⟨first, here, rest, -⟩ := Lay.bind_eq_ok o
  obtain ⟨others, there, done, -⟩ := Lay.bind_eq_ok rest
  cases done
  exact ⟨first, others, here, there, rfl⟩

/-- Settling a node leaves it as it is. -/
theorem settle_eq_ok {own : Laid} (o : (settle own).outcome s = .ok laid) : laid = own := by
  rw [settle, Lay.outcome_bind, outcome_keep] at o
  cases o
  rfl

/-- A leaf is left as it is, dropped or replaced. -/
theorem layNode_leaf_eq_ok (leaf : isLeaf head)
    (o : (layNode around (.plain info head cs)).outcome s = .ok laid) :
    (layLeaf around info head cs).outcome s = .ok laid.left := by
  rw [layNode, if_pos leaf] at o
  obtain ⟨left, outcome, rest, -⟩ := Lay.bind_eq_ok o
  rw [settle_eq_ok rest]
  exact outcome

/-- A node that may hold others is finished around what is left of them. -/
theorem layNode_eq_ok (inner : isLeaf head = false)
    (o : (layNode around (.plain info head cs)).outcome s = .ok laid) :
    ∃ content, (layAll (around.content info head) cs).outcome s = .ok content ∧
      laid = finish around info head content := by
  rw [layNode, if_neg (by simp [inner])] at o
  obtain ⟨content, outcome, rest, -⟩ := Lay.bind_eq_ok o
  obtain ⟨-, -, rest, -⟩ := Lay.bind_eq_ok rest
  exact ⟨content, outcome, settle_eq_ok rest⟩

/-- A flush at the root is replaced by copies among which there is no declaration. -/
theorem layFlush_root_eq_ok {name : BufferName} {captured : List GroupId}
    (o : (layFlush .root info name captured).outcome s = .ok left) :
    (flushed s.groups captured).any (·.kind == .declaration) = false ∧
      left = markLast .root (flushed s.groups captured) := by
  obtain ⟨s', found, o, -⟩ := Lay.bind_eq_ok o
  cases found
  obtain ⟨-, -, o, -⟩ := Lay.bind_eq_ok o
  obtain ⟨-, -, o, -⟩ := Lay.bind_eq_ok o
  dsimp only at o
  split at o
  · cases o
  · rename_i accepted
    cases o
    exact ⟨Bool.not_eq_true _ ▸ accepted, rfl⟩

end

/-- A document becomes a document of what is left of its content. -/
theorem outcome_layNode_root (info : Info) (children : List Node) (s : State) :
    (layNode .other (.plain info .root children)).outcome s =
      ((layAll .root children).outcome s).map (finish .other info .root) := by
  have unfolded : layNode .other (.plain info .root children) = (do
      let laid ← layAll .root children
      register .other info .root laid
      settle (finish .other info .root laid)) := by
    rw [layNode]
    rfl
  rw [unfolded, Lay.outcome_bind]
  cases (layAll .root children).outcome s with
  | error e => rfl
  | ok left =>
    show (settle (finish .other info .root left)).outcome _ = _
    rw [settle, Lay.outcome_bind, outcome_keep]
    rfl

end Layout
end Stylesheet
