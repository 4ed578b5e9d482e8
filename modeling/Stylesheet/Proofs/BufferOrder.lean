/-
# Groups come to their end before the flushes that use them

Evaluation and layout both go through a tree in document order, and they agree on what
that order is for the tree that the first leaves and the second takes.  So what a flush
has captured is always laid out by the time the flush is replaced.

`Captures root groups history` says how the flushes of an evaluated tree refer to its
groups, and `Layout.State.InOrder` that the layout pass has come to the end of every group
of a flush once when it replaced the flush.  `Document.captures_of_run` shows both for
every tree whose nesting is right.
-/

import Stylesheet.Proofs.Evaluation.Document
import Stylesheet.Proofs.Layout.History
import Mathlib.Data.List.Nodup

namespace Stylesheet

/-- The flushes of an evaluated tree refer to groups of the tree that come before them. -/
structure Captures (root : Node) (groups : Groups) (history : History) : Prop where
  /-- No two nodes are the same group. -/
  numbers : (root.tags.filterMap Tag.closed?).Nodup
  /-- A flush has captured no group twice, and groups in the order in which they end, all of
  them before the flush is entered. -/
  order : ∀ before info name captured cs after,
    root.tags = before ++ .opens (.plain info (.flush name captured) cs) :: after →
      captured.Nodup ∧ captured.Sublist (before.filterMap Tag.closed?)
  /-- A captured group is a buffer of the same name in the tree, which has been left before
  the flush is entered. -/
  nodes : ∀ before info name captured cs after,
    root.tags = before ++ .opens (.plain info (.flush name captured) cs) :: after →
      ∀ g ∈ captured, ∃ (info' : Info) (name' : BufferName) (body : List Node),
        groups[g]? = some (.plain info' (.buffer name') body) ∧ info'.group = some g ∧
          name'.resolved = name.resolved ∧ .closes (.plain info' (.buffer name') body) ∈ before
  /-- The history is that of the walk through the tree. -/
  steps : history.map Prod.snd = root.steps
  /-- Of two flushes that have found the same entry, the later one has captured what the
  earlier one has and perhaps more after it. -/
  entries : ∀ before between after holder name captured captured',
    history = before ++ (some holder, .flush name captured) ::
        (between ++ (some holder, .flush name captured') :: after) →
      captured <+: captured'

/-- When a flush is replaced, the pass has come to the end of each of its groups once. -/
def Layout.State.InOrder (s : Layout.State) : Prop :=
  ∀ before name captured after, s.history.toList = before ++ .flush name captured :: after →
    ∀ g ∈ captured, (before.filterMap BufferStep.closed?).count g = 1

/-- A group is closed at a step of the buffers. -/
theorem Tag.closed?_eq (t : Tag) : t.closed? = t.step?.bind BufferStep.closed? := by
  unfold Tag.step?
  split
  · rename_i info name cs
    rw [Tag.closed?, Node.number?]
    cases info.group <;> rfl
  · rename_i info name captured cs
    rw [Tag.closed?, Option.guard]
    split <;> rfl
  · rename_i notBuffer _
    cases t with
    | opens n => rfl
    | closes n =>
      cases n with
      | cond => rfl
      | plain info head cs =>
        cases head with
        | buffer name => exact (notBuffer info name cs rfl).elim
        | _ => rfl

/-- The groups that a walk closes are those of its steps. -/
theorem filterMap_closed? (walk : List Tag) :
    walk.filterMap Tag.closed? = (walk.filterMap Tag.step?).filterMap BufferStep.closed? := by
  rw [List.filterMap_filterMap]
  exact List.filterMap_congr fun t _ => t.closed?_eq

/-- The node of a group that the walk has come to the end of. -/
theorem exists_node_of_step {walk : List Tag} {g : GroupId} {name : Option String}
    (h : .group g name ∈ walk.filterMap Tag.step?) :
    ∃ (info : Info) (name' : BufferName) (body : List Node), info.group = some g ∧
      name'.resolved = name ∧ .closes (.plain info (.buffer name') body) ∈ walk := by
  obtain ⟨t, ht, e⟩ := List.mem_filterMap.1 h
  unfold Tag.step? at e
  split at e
  · rename_i info name' body
    obtain ⟨g', eg, e⟩ := Option.map_eq_some_iff.1 e
    cases e
    exact ⟨info, name', body, eg, rfl, ht⟩
  · cases (Option.guard_eq_some_iff.1 e).1
  · cases e

/-- What has been gone through from a world without history. -/
theorem World.Sound.captures {bare : Bool} {w w₀ : World} {root : Node} (sound : w.Sound bare)
    (first : w₀.history = #[]) (produced : w₀.Produced w root.tags) :
    Captures root w.groups w.history.toList := by
  obtain ⟨new, e, steps⟩ := produced.history
  rw [first, Array.toList_empty, List.nil_append] at e
  rw [← e] at steps
  have numbers : (root.tags.filterMap Tag.closed?).Nodup := by
    rw [filterMap_closed?, ← steps]
    exact sound.nodup_closed?
  -- a flush that leads to a step is in the history, too
  have split {before after : List Tag} {info : Info} {name : BufferName}
      {captured : List GroupId} {cs : List Node}
      (h : root.tags = before ++ .opens (.plain info (.flush name captured) cs) :: after)
      (live : (BufferStep.flush name.resolved captured).live) :
      w.history.toList.map Prod.snd = before.filterMap Tag.step? ++
        .flush name.resolved captured :: after.filterMap Tag.step? := by
    rw [steps, h, List.filterMap_append, List.filterMap_cons, Node.step?_opens_flush info cs live]
  refine ⟨numbers, fun before info name captured cs after h => ?_,
    fun before info name captured cs after h g hg => ?_, steps,
    fun before between after holder name captured captured' h => ?_⟩
  · by_cases live : (BufferStep.flush name.resolved captured).live
    · have sub := (sound.found_before (split h live)).1
      rw [← filterMap_closed?] at sub
      have whole : (before.filterMap Tag.closed?).Sublist (root.tags.filterMap Tag.closed?) := by
        rw [h]
        exact (List.sublist_append_left _ _).filterMap _
      exact ⟨(numbers.sublist whole).sublist sub, sub⟩
    · rw [Node.captured_eq_nil live]
      exact ⟨List.nodup_nil, List.nil_sublist _⟩
  · by_cases live : (BufferStep.flush name.resolved captured).live
    · obtain ⟨info', name', body, group, resolved, mem⟩ :=
        exists_node_of_step ((sound.found_before (split h live)).2 g hg)
      refine ⟨info', name', body, produced.kept _ g ?_ group, group, resolved, mem⟩
      rw [h]
      exact List.mem_append_left _ mem
    · rw [Node.captured_eq_nil live] at hg
      cases hg
  · obtain ⟨text, rfl, rfl⟩ := sound.flushes before (some holder) name captured _ h
    rw [← List.cons_append, ← List.append_assoc] at h
    obtain ⟨text', same, rfl⟩ := sound.flushes _ (some holder) _ captured' after h
    cases same
    show collected _ _ _ <+: collected _ _ _
    rw [collected_append]
    exact List.prefix_append _ _

/-- A walk that the pass has gone along, up to where it has come. -/
theorem Layout.State.inOrder {bare : Bool} {s : Layout.State} {w : World} (sound : w.Sound bare)
    (along : s.history.toList.filter BufferStep.live <+: w.history.toList.map Prod.snd) :
    s.InOrder := by
  intro before name captured after e g hg
  have live : (BufferStep.flush name captured).live := by
    by_contra idle
    rw [Node.captured_eq_nil idle] at hg
    cases hg
  have ends : before.filterMap BufferStep.closed? =
      (before.filter BufferStep.live).filterMap BufferStep.closed? := by
    rw [List.filterMap_filter]
    refine List.filterMap_congr fun step _ => ?_
    cases step with
    | group => rfl
    | flush => simp [BufferStep.closed?]
  obtain ⟨rest, e'⟩ := along
  rw [e, List.filter_append, List.filter_cons_of_pos live, List.append_assoc,
    List.cons_append] at e'
  have sub := (sound.found_before e'.symm).1
  have once : ((before.filter BufferStep.live).filterMap BufferStep.closed?).Nodup := by
    have all := sound.nodup_closed?
    rw [← e', List.filterMap_append] at all
    exact (List.nodup_append.1 all).1
  rw [ends]
  exact List.count_eq_one_of_mem once (sub.subset hg)

/-- A run turns a document into a document that the layout pass may go through: its flushes
refer to groups that end before them, and all groups are there. -/
theorem Document.ordered_of_run (bare : Bool) (depth : Nat) (options : Options) (log : Log)
    {info : Info} {cs nodes : List Node} {w : World} (fresh : Node.freshAll bare cs)
    (nesting : Nesting.check (.plain info .root cs) = .ok ())
    (run : Eval.runFresh options #[] log
      (fun scope => (Recursion.ofDepth depth).visit scope (.plain info .root cs)) =
        (.ok nodes, w)) :
    ∃ children, nodes = [.plain info.apart .root children] ∧ Node.settledAll bare children ∧
      BufferStep.Ordered [] (Node.stepsAll children) ∧
      ∀ g ∈ BufferStep.closed (Node.stepsAll children), g < w.groups.size := by
  obtain ⟨children, content, sound, produced, settled⟩ :=
    Evaluation.document_of_run bare depth options log fresh nesting run
  have captures := sound.captures rfl produced
  refine ⟨children, content, settled, (Node.ordered_steps (sound.ordered captures.steps)).1,
    fun g hg => sound.lt_size ?_⟩
  rw [captures.steps, Node.closed_steps]
  exact List.mem_append_left _ hg

/-- **Groups come to their end before the flushes that use them.**  Take a tree of a
document that has not been evaluated and whose nesting is right, and a run that turns it
into some nodes.  That is one node, a tree whose flushes refer to groups that come before
them in the tree; and wherever the layout pass of that tree comes to a flush, it has come
to the end of each of its groups once. -/
theorem Document.captures_of_run (depth : Nat) (options : Options) (log : Log) {info : Info}
    {cs nodes : List Node} {w : World} (fresh : Node.freshAll false cs)
    (nesting : Nesting.check (.plain info .root cs) = .ok ())
    (run : Eval.runFresh options #[] log
      (fun scope => (Recursion.ofDepth depth).visit scope (.plain info .root cs)) =
        (.ok nodes, w)) :
    ∃ root, nodes = [root] ∧ Captures root w.groups w.history.toList ∧
      ∀ notes,
        ((Layout.layNode .other root).after { groups := w.groups, log := notes }).InOrder := by
  obtain ⟨children, rfl, sound, produced, settled⟩ :=
    Evaluation.document_of_run false depth options log fresh nesting run
  have captures := sound.captures rfl produced
  refine ⟨_, rfl, captures, fun notes => ?_⟩
  have settledRoot : (Node.plain info.apart .root children).settled false := settled
  obtain ⟨new, e, along, -⟩ := Layout.follows_layNode .other _ (.inl settledRoot)
    { groups := w.groups, log := notes }
  refine Layout.State.inOrder sound ?_
  rw [captures.steps, e]
  exact along

/-- A buffer that is flushed right after it. -/
theorem Document.captures_of_run_buffer :
    let tree : Node := .plain {} .root
      [.plain {} (.buffer { written := [.text "a"] })
        [.plain {} (.directive [.text "x"] none false) []],
      .plain {} (.flush { written := [.text "a"] } []) []]
    let run := Eval.runFresh {} #[] #[] fun scope => (Recursion.ofDepth 3).visit scope tree
    ∃ nodes w, run = (.ok nodes, w) ∧ ∃ root, nodes = [root] ∧
      Captures root w.groups w.history.toList ∧
      ∀ notes,
        ((Layout.layNode .other root).after { groups := w.groups, log := notes }).InOrder := by
  intro tree run
  have ok : run.1.isOk := by decide
  rcases e : run with ⟨o, w⟩
  rw [e] at ok
  cases o with
  | error i => cases ok
  | ok nodes => exact ⟨nodes, w, rfl, captures_of_run 3 {} #[] (by decide) (by rfl) e⟩

end Stylesheet
