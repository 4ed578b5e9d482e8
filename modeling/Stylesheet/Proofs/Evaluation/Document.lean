/-
# What the evaluation of a document comes to

The groups and flushes of a sound world are in order: what a flush has found has come to
its end before it (`World.Sound.ordered`).  An evaluation starts from such a world, and one
that comes to an end turns a document into a document whose buffers and flushes it has gone
through (`Evaluation.document_of_run`).
-/

import Stylesheet.Proofs.Evaluation.Capture
import Stylesheet.Proofs.Node.Order

namespace Stylesheet

/-- What has been put into one entry has come to its end. -/
theorem collected_sublist (h : History) (k : ScopeId) (name : String) :
    (collected h k name).Sublist ((h.map Prod.snd).filterMap BufferStep.closed?) := by
  induction h with
  | nil => exact List.Sublist.slnil
  | cons e h ih =>
    obtain ⟨holder, step⟩ := e
    rw [collected, List.filterMap_cons, List.map_cons, List.filterMap_cons]
    cases step with
    | flush n captured => cases holder <;> exact ih
    | group g n =>
      show List.Sublist _ (g :: _)
      split
      · exact ih.trans (List.sublist_cons_self ..)
      · rename_i b eb
        cases holder with
        | none => cases eb
        | some j =>
          cases n with
          | none => cases eb
          | some n =>
            rw [collect] at eb
            split at eb
            · cases eb
              exact ih.cons_cons g
            · cases eb

/-- What is in an entry has come to its end under its name. -/
theorem step_of_mem_collected {h : History} {k : ScopeId} {name : String} {g : GroupId}
    (hg : g ∈ collected h k name) : .group g (some name) ∈ h.map Prod.snd := by
  obtain ⟨e, he, eg⟩ := List.mem_filterMap.1 hg
  unfold collect at eg
  split at eg
  · split at eg
    · rename_i same
      cases eg
      rw [← same.2]
      exact List.mem_map_of_mem he
    · cases eg
  · cases eg

/-- Where a step of the walk through a tree has been written down. -/
theorem exists_split {history : History} {a b : List BufferStep} {step : BufferStep}
    (h : history.map Prod.snd = a ++ step :: b) :
    ∃ before holder after, history = before ++ (holder, step) :: after ∧
      before.map Prod.snd = a := by
  obtain ⟨before, rest, rfl, ha, hr⟩ := List.map_eq_append_iff.1 h
  obtain ⟨e, after, rfl, he, -⟩ := List.map_eq_cons_iff.1 hr
  obtain ⟨holder, step'⟩ := e
  cases he
  exact ⟨before, holder, after, rfl, ha⟩

namespace World.Sound

variable {bare : Bool} {w : World}

/-- The groups that have ended are all that there are. -/
theorem closed_eq (h : w.Sound bare) :
    BufferStep.closed (w.history.toList.map Prod.snd) = List.range w.groups.size := by
  rw [← h.numbers]
  exact List.filterMap_map

/-- No group comes to its end twice. -/
theorem nodup_closed? (h : w.Sound bare) :
    ((w.history.toList.map Prod.snd).filterMap BufferStep.closed?).Nodup := by
  show (BufferStep.closed _).Nodup
  rw [h.closed_eq]
  exact List.nodup_range

/-- A group that has ended has a number below that of the next. -/
theorem lt_size (h : w.Sound bare) {g : GroupId}
    (ended : g ∈ BufferStep.closed (w.history.toList.map Prod.snd)) : g < w.groups.size := by
  rw [h.closed_eq] at ended
  exact List.mem_range.1 ended

/-- The groups in an entry are there. -/
theorem lt_of_mem_entry (h : w.Sound bare) {i : ScopeId} {name : String} {g : GroupId}
    (inside : g ∈ w.scopes.entry i name) : g < w.groups.size := by
  rw [h.entries] at inside
  exact h.lt_size ((collected_sublist _ i name).subset inside)

/-- A flush has captured what came to its end under its name before it. -/
theorem found_before (h : w.Sound bare) {a b : List BufferStep} {name : Option String}
    {captured : List GroupId}
    (split : w.history.toList.map Prod.snd = a ++ .flush name captured :: b) :
    captured.Sublist (a.filterMap BufferStep.closed?) ∧
      ∀ g ∈ captured, .group g name ∈ a := by
  obtain ⟨before, holder, after, e, rfl⟩ := exists_split split
  obtain ⟨text, rfl, rfl⟩ := h.flushes before holder name captured after e
  cases holder with
  | none => exact ⟨List.nil_sublist _, fun g hg => nomatch hg⟩
  | some k => exact ⟨collected_sublist before k text, fun g => step_of_mem_collected⟩

/-- The walk through what has been gone through from a world without history. -/
theorem ordered (h : w.Sound bare) {walk : List BufferStep}
    (along : w.history.toList.map Prod.snd = walk) : BufferStep.Ordered [] walk := by
  subst along
  exact BufferStep.ordered_of_split h.nodup_closed? fun _ _ _ _ split =>
    (h.found_before split).1.subset

end World.Sound

namespace Evaluation

/-- The world that an evaluation starts from is sound. -/
theorem sound_start (bare : Bool) (options : Options) (log : Log) :
    (start options #[] log).2.Sound bare where
  tame :=
    { reachable := .add (some options) none .empty fun p (h : none = some p) => nomatch h
      mixins := fun i name d e => by
        rw [start_field (·.mixins) fun _ _ _ => rfl] at e
        cases e
      functions := fun i name d e => by
        rw [start_field (·.functions) fun _ _ _ => rfl] at e
        cases e }
  entries k name := by
    rw [Scopes.entry, start_field (·.buffers) fun _ _ _ => rfl]
    rfl
  numbers := rfl
  flushes before holder name groups after e := by
    cases before <;> cases e

section

variable {r : Recursion} {i : ScopeId} {info : Info} {cs nodes : List Node} {w : World}

/-- A document is visited with its content in a block, and keeps its place. -/
theorem visitNode_root : visitNode r i (.plain info .root cs) =
    Eval.locate info.span (visitBody r i cs >>= fun children =>
      pure [Node.plain info.apart .root children]) :=
  rfl

/-- A document comes to an end when its content does. -/
theorem outcome_root :
    (visitNode r i (.plain info .root cs)).outcome w = .ok nodes ↔
      ∃ children, (visitBody r i cs).outcome w = .ok children ∧
        nodes = [.plain info.apart .root children] := by
  rw [visitNode_root, Eval.outcome_locate_eq_ok, Eval.outcome_bind]
  cases (visitBody r i cs).outcome w with
  | error i => simp
  | ok children => simp [eq_comm]

/-- A document leaves the world that its content leaves. -/
theorem after_root :
    (visitNode r i (.plain info .root cs)).after w = (visitBody r i cs).after w := by
  rw [visitNode_root, Eval.after_locate, Eval.after_bind]
  cases (visitBody r i cs).outcome w with
  | error i => rfl
  | ok children => rfl

/-- A document becomes a document, and what is in it has been gone through. -/
theorem document_of_visitNode {bare : Bool} (hr : r.Produces bare) (fresh : Node.freshAll bare cs)
    (tame : Node.tameAll cs) (hw : w.SoundAt bare i)
    (h : (visitNode r i (.plain info .root cs)).outcome w = .ok nodes) :
    let w' := (visitNode r i (.plain info .root cs)).after w
    ∃ children, nodes = [.plain info.apart .root children] ∧ w'.Sound bare ∧
      w.Produced w' (Node.plain info.apart .root children).tags ∧
      Node.settledAll bare children := by
  obtain ⟨children, content, rfl⟩ := outcome_root.1 h
  obtain ⟨⟨sound, -⟩, -, produced, settled⟩ := yields_visitBody hr fresh tame w _ hw content
  have around : w.Produced ((visitBody r i cs).after w)
      (Node.tagsAll [.plain info.apart .root children]) := produced.around (by simp)
  rw [Node.tagsAll_singleton] at around
  rw [after_root]
  exact ⟨children, rfl, sound, around, settled⟩

end

/-- **A run turns a document into a document**, whose buffers and flushes it has gone
through. -/
theorem document_of_run (bare : Bool) (depth : Nat) (options : Options) (log : Log)
    {info : Info} {cs nodes : List Node} {w : World} (fresh : Node.freshAll bare cs)
    (nesting : Nesting.check (.plain info .root cs) = .ok ())
    (run : Eval.runFresh options #[] log
      (fun scope => (Recursion.ofDepth depth).visit scope (.plain info .root cs)) =
        (.ok nodes, w)) :
    ∃ children, nodes = [.plain info.apart .root children] ∧ w.Sound bare ∧
      (start options #[] log).2.Produced w (Node.plain info.apart .root children).tags ∧
      Node.settledAll bare children := by
  obtain ⟨outcome, rfl⟩ := Prod.mk.injEq .. ▸ run
  cases depth with
  | zero => cases outcome
  | succ n =>
    exact document_of_visitNode (Recursion.produces_ofDepth bare n) fresh
      (Nesting.tame_of_check nesting) ⟨sound_start bare options log, Nat.one_pos⟩ outcome

end Evaluation

end Stylesheet
