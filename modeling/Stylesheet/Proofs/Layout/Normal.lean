/-
# The normal form of a laid-out tree

A laid-out tree is `Node.normal` if every node in it has its texts resolved, every rule,
query and condition in it holds something, and nothing is inside a node that may not be
there: only declarations and comments are in rules, no query is directly in a query, plain
imports are nowhere but directly in the document, and buffers, flushes and extensions are
nowhere at all (`Kind.holds`).

The pass leaves such nodes (`Layout.Flat`) of every node of an evaluated tree, and the groups
that have come to their end hold such nodes, so that a flush may copy them unseen
(`Layout.flatness_sound`).  So the tree that it makes of a document is in normal form
(`Document.normal_of_layOut`).
-/

import Stylesheet.Proofs.BufferOrder
import Stylesheet.Proofs.Layout.Account
import Stylesheet.Proofs.Layout.RootContent
import Stylesheet.Proofs.Node.Produced

namespace Stylesheet

/-- What may be directly inside a node of a laid-out tree. -/
def Kind.holds : Kind → Kind → Bool
  | .root, k =>
    [.rule, .declaration, .directive, .media, .supports, .comment, .importSheet].contains k
  | .rule, k => [.declaration, .comment].contains k
  | .media, k => [.rule, .declaration, .directive, .supports, .comment].contains k
  | .supports, k | .directive, k =>
    [.rule, .declaration, .directive, .media, .supports, .comment].contains k
  | _, _ => false

/-- Whether the texts of a node that is written are resolved; a rule has selectors. -/
def Head.written : Head → Bool
  | root | importSheet _ | comment .. => true
  | rule _ resolved => resolved.any (!·.isEmpty)
  | declaration _ _ name value => name.isSome && value.isSome
  | directive _ resolved _ | media _ resolved | supports _ resolved => resolved.isSome
  | _ => false

namespace Node

mutual

/-- Whether a laid-out tree is in normal form. -/
def normal : Node → Bool
  | plain _ h cs =>
    h.written && (!h.grouping || !cs.isEmpty) && (cs.all fun c => h.kind.holds c.kind) &&
      normalAll cs
  | cond .. => false

/-- Whether some laid-out trees are in normal form. -/
def normalAll : List Node → Bool
  | [] => true
  | n :: ns => n.normal && normalAll ns

end

/-- A node without clauses is in normal form if it has its texts, and the right children. -/
theorem normal_plain {i : Info} {h : Head} {cs : List Node} :
    (plain i h cs).normal ↔ h.written ∧ (h.grouping → cs ≠ []) ∧
      (∀ c ∈ cs, h.kind.holds c.kind) ∧ ∀ c ∈ cs, c.normal := by
  have all : ∀ ns : List Node, normalAll ns ↔ ∀ c ∈ ns, c.normal := by
    intro ns
    induction ns with
    | nil => simp [normalAll]
    | cons n ns ih => simp [normalAll, ih]
  have empty : (!h.grouping || !cs.isEmpty) = true ↔ (h.grouping = true → cs ≠ []) := by
    cases h.grouping <;> cases cs <;> simp
  rw [normal, Bool.and_eq_true, Bool.and_eq_true, Bool.and_eq_true, empty, all, List.all_eq_true,
    and_assoc, and_assoc]

end Node

namespace Layout

open Node
open BufferStep (closed)

/-- A node that has been laid out as far as it goes; `top` tells whether it may be a plain
import. -/
structure Flat (top : Bool) (n : Node) : Prop where
  laidOut : n.laidOut
  normal : n.normal
  sheet : top = false → n.kind ≠ .importSheet

/-- Nodes that have been laid out as far as they go. -/
abbrev FlatAll (top : Bool) (ns : List Node) : Prop :=
  ∀ n ∈ ns, Flat top n

variable {top : Bool} {around : Around} {info : Info} {head : Head} {ns ms laid : List Node}

namespace Flat

variable {n : Node}

/-- What is flat below the top is flat at the top. -/
theorem weaken {top' : Bool} (h : Flat top n) (le : top = true → top' = true) : Flat top' n :=
  ⟨h.laidOut, h.normal, fun e => h.sheet (by
    cases top with
    | false => rfl
    | true => cases (le rfl).symm.trans e)⟩

/-- The kinds that are left. -/
theorem holds (h : Flat top n) : Kind.root.holds n.kind := by
  match n with
  | .plain i head cs =>
    have final := (laidOut_plain.1 h.laidOut).2.1
    cases head with
    | rule | declaration | directive | media | supports | comment | importSheet => rfl
    | _ => cases final

/-- What is flat below the top may be in conditions and directives, and in queries unless it is
one. -/
theorem holds_inside (h : Flat false n) :
    Kind.supports.holds n.kind ∧ Kind.directive.holds n.kind ∧
      (n.kind ≠ .media → Kind.media.holds n.kind) := by
  have outside := h.holds
  have sheet := h.sheet rfl
  cases e : n.kind with
  | media => exact ⟨rfl, rfl, fun ne => absurd rfl ne⟩
  | rule | declaration | directive | supports | comment => exact ⟨rfl, rfl, fun _ => rfl⟩
  | importSheet => exact absurd e sheet
  | _ =>
    rw [e] at outside
    cases outside

/-- A mark at the end of a group leaves a node flat. -/
theorem markGroupEnd (h : Flat top n) (b : Bool) : Flat top (n.markGroupEnd b) := by
  match n with
  | .plain .. => exact ⟨h.laidOut, h.normal, h.sheet⟩
  | .cond .. => cases h.laidOut

end Flat

/-- Flat nodes are laid out. -/
theorem laidOutAll_of_flat (h : FlatAll top ns) : laidOutAll ns :=
  laidOutAll_iff.2 fun n hn => (h n hn).laidOut

/-- Two lists of flat nodes, one after the other. -/
theorem flatAll_append (h : FlatAll top ns) (k : FlatAll top ms) : FlatAll top (ns ++ ms) :=
  fun n hn => (List.mem_append.1 hn).elim (h n) (k n)

/-- Some of a list of flat nodes. -/
theorem flatAll_filter (h : FlatAll top ns) (p : Node → Bool) : FlatAll top (ns.filter p) :=
  fun n hn => h n (List.mem_filter.1 hn).1

/-- A mark at the end of a group leaves flat nodes flat. -/
theorem flatAll_changeLast (b : Bool) (h : FlatAll top ns) :
    FlatAll top (changeLast (Node.markGroupEnd b) ns) := by
  induction ns with
  | nil => exact h
  | cons n ns ih =>
    cases ns with
    | nil =>
      rintro m hm
      cases List.mem_singleton.1 hm
      exact (h n List.mem_cons_self).markGroupEnd b
    | cons m ns =>
      have rest := ih fun k hk => h k (List.mem_cons_of_mem n hk)
      rintro k hk
      rcases List.mem_cons.1 hk with rfl | hk
      · exact h k List.mem_cons_self
      · exact rest k hk

/-- Marking the last node leaves flat nodes flat. -/
theorem flatAll_markLast (around : Around) (h : FlatAll top ns) :
    FlatAll top (markLast around ns) := by
  cases around with
  | rule => exact h
  | _ => exact flatAll_changeLast true h

/-! ### Finishing nodes -/

/-- Whether what is directly around is a rule with selectors if it is a rule. -/
def Around.written : Around → Bool
  | rule _ (.rule _ resolved) => resolved.any (!·.isEmpty)
  | rule .. => false
  | _ => true

/-- A rule around that has its selectors is a proper one. -/
theorem proper_of_written (h : around.written) : around.proper := by
  cases around with
  | rule i head =>
    cases head with
    | rule selectors resolved =>
      cases resolved with
      | none => cases h
      | some l => rfl
    | _ => cases h
  | _ => rfl

/-- What is around the content of a node has selectors if the node has. -/
theorem written_content (written : around.written) (info : Info)
    (rules : (Node.plain info head ns).selective) : (around.content info head).written := by
  cases head with
  | rule => exact rules
  | media | supports | buffer =>
    cases around with
    | rule _ outer => cases outer <;> exact written
    | _ => rfl
  | _ => rfl

/-- A block leaves itself, if it holds something, and others. -/
theorem flatAll_before (around : Around) {cs others : List Node} (group : info.group = none)
    (final : head.final) (block : head.isBlock) (written : head.written)
    (inner : FlatAll false cs) (holds : ∀ c ∈ cs, head.kind.holds c.kind)
    (rest : FlatAll false others) :
    FlatAll false (Laid.before around (.plain info head cs) others).left := by
  unfold Laid.before
  split
  · exact flatAll_markLast around rest
  · rename_i some'
    have own : Flat false (.plain info head cs) := by
      refine ⟨laidOut_plain.2 ⟨group, final, .inl block, laidOutAll_of_flat inner⟩, ?_, fun _ => ?_⟩
      · refine normal_plain.2 ⟨written, fun _ e => ?_, holds, fun c hc => (inner c hc).normal⟩
        exact some' (List.isEmpty_iff.2 e)
      · cases head with
        | importSheet => cases block
        | _ => exact nofun
    refine flatAll_markLast around fun n hn => ?_
    rcases List.mem_cons.1 hn with rfl | hn
    · exact own
    · exact rest n hn

/-- A rule leaves flat nodes, as what it does not keep follows it. -/
theorem flatAll_finishRule (around : Around) (group : info.group = none) {selectors : Template}
    {resolved : Option (List String)} (written : resolved.any (!·.isEmpty))
    (inner : FlatAll false laid) :
    FlatAll false (finishRule around info (.rule selectors resolved) laid).left := by
  have final : resolved.isSome := by
    cases resolved with
    | none => cases written
    | some l => rfl
  refine flatAll_before around group final rfl written (flatAll_filter inner _) (fun c hc => ?_)
    (flatAll_filter inner _)
  have stays := (List.mem_filter.1 hc).2
  rw [staysInRule, Bool.or_eq_true, beq_iff_eq, beq_iff_eq] at stays
  rcases stays with e | e
  · rw [e]
    rfl
  · rw [e]
    rfl

/-- What rises is flat, with the rule repeated in it or without. -/
theorem flatAll_risen (written : around.written) (inner : FlatAll false laid) :
    FlatAll false (risen around laid) := by
  cases around with
  | rule i outer =>
    cases outer with
    | rule selectors resolved =>
      exact flatAll_changeLast false (flatAll_finishRule .other rfl written inner)
    | _ => cases written
  | _ => exact inner

/-- Joining queries leaves flat nodes flat. -/
theorem flatAll_joinedQueries (outer : Option String) (inner : FlatAll false laid) :
    FlatAll false (joinedQueries outer laid) := by
  intro n hn
  obtain ⟨m, hm, rfl⟩ := List.mem_map.1 hn
  obtain ⟨mem, kind⟩ := List.mem_filter.1 hm
  have flat := inner m mem
  obtain ⟨i, query, resolved, cs, rfl⟩ := eq_media_of_kind kind
  obtain ⟨-, some', holds, normal⟩ := normal_plain.1 flat.normal
  exact ⟨flat.laidOut, normal_plain.2 ⟨rfl, some', holds, normal⟩, flat.sheet⟩

/-- **A block with flat content leaves flat nodes.** -/
theorem flatAll_finish (outside : around.written) (group : info.group = none)
    (settled : head.settled) (block : head.isBlock) (written : head.written)
    (inner : FlatAll false laid) : FlatAll false (finish around info head laid).left := by
  have rises := flatAll_risen outside inner
  cases head with
  | rule => exact flatAll_finishRule around group written inner
  | media query resolved =>
    refine flatAll_before around group rfl rfl written (flatAll_filter rises _) (fun c hc => ?_)
      (flatAll_joinedQueries resolved rises)
    obtain ⟨mem, apart⟩ := List.mem_filter.1 hc
    exact ((rises c mem).holds_inside).2.2 (bne_iff_ne.1 apart)
  | supports =>
    exact flatAll_before around group rfl rfl written rises
      (fun c hc => (rises c hc).holds_inside.1) nofun
  | directive =>
    rintro n hn
    cases List.mem_singleton.1 hn
    refine ⟨laidOut_plain.2 ⟨group, rfl, .inl rfl, laidOutAll_of_flat inner⟩, ?_, nofun⟩
    exact normal_plain.2 ⟨written, nofun, fun c hc => (inner c hc).holds_inside.2.1,
      fun c hc => (inner c hc).normal⟩
  | _ => cases block

/-! ### Laying out -/

/-- What a group that has come to its end is. -/
def FlatGroup (_ : GroupId) (n : Node) : Prop :=
  FlatAll false n.children

/-- The content of groups that have come to their end, copied. -/
theorem flatAll_flushed {done : List GroupId} {s : State} (ended : s.Ended FlatGroup done)
    {captured : List GroupId} (before : captured ⊆ done) :
    FlatAll false (flushed s.groups captured) := by
  induction captured with
  | nil => exact nofun
  | cons g captured ih =>
    obtain ⟨n, found, flat⟩ := ended g (before List.mem_cons_self)
    rw [flushed_cons found (laidOutAll_of_flat flat)]
    exact flatAll_append flat (ih fun g' hg' => before (List.mem_cons_of_mem g hg'))

/-- That the pass leaves flat nodes, with plain imports where there were some. -/
def flatness : Account where
  given around n := around.written ∧ (∀ m ∈ n.nodes, m.selective) ∧ sheetless n.children
  leaves _ n := FlatAll (n.kind == .importSheet)
  kept := FlatGroup

/-- What nodes leave that each leave flat nodes. -/
theorem flatAll_flatMap {parts : List Laid} (h : flatness.leavesEach around ns parts)
    (sheets : ∀ n ∈ ns, n.kind = .importSheet → top = true) :
    FlatAll top (parts.flatMap Laid.left) := by
  induction h with
  | nil => exact nofun
  | @cons n part ns parts first _ ih =>
    have here : FlatAll top part.left := fun m hm =>
      (first m hm).weaken fun e => sheets n List.mem_cons_self (beq_iff_eq.1 e)
    exact flatAll_append here (ih fun m hm => sheets m (List.mem_cons_of_mem n hm))

/-- What is in a node leaves no plain import. -/
theorem flatAll_content {cs : List Node} {parts : List Laid}
    (given : flatness.given around (.plain info head cs))
    (h : flatness.leavesEach (around.content info head) cs parts) :
    FlatAll false (parts.flatMap Laid.left) :=
  flatAll_flatMap h fun _ hc e => absurd e (kind_ne_of_sheetless given.2.2 hc)

/-- **Each way in which a node is laid out leaves flat nodes.** -/
theorem flatness_sound : flatness.Sound where
  laidOut h := laidOutAll_of_flat h
  inside := by
    rintro around info head cs ⟨outside, rules, sheets⟩ c hc
    refine ⟨written_content outside info (rules _ List.mem_cons_self), fun m hm => ?_,
      sheetless_of_mem sheets hc⟩
    exact rules m (List.mem_cons_of_mem _ (mem_nodesAll.2 ⟨c, hc, hm⟩))
  stay := by
    rintro around info head - group settled final alone n hn
    cases List.mem_singleton.1 hn
    refine ⟨laidOut_plain.2 ⟨group, final, .inr rfl, rfl⟩, ?_, beq_eq_false_iff_ne.1⟩
    cases head with
    | declaration =>
      exact normal_plain.2 ⟨settled, nofun, nofun, nofun⟩
    | comment | importSheet => exact normal_plain.2 ⟨rfl, nofun, nofun, nofun⟩
    | rule | media | supports | directive => cases alone
    | _ => cases final
  extend := nofun
  flush ended before := flatAll_markLast _ (flatAll_flushed ended before)
  block := by
    intro around info head cs parts _ given group settled block inner
    have flat := flatAll_content given inner
    have written : head.written := by
      cases head with
      | rule => exact given.2.1 _ List.mem_cons_self
      | media | supports | directive => exact settled
      | _ => cases block
    have apart : ((Node.plain info head cs).kind == .importSheet) = false := by
      cases head with
      | importSheet => cases block
      | _ => rfl
    show FlatAll _ _
    rw [apart]
    exact flatAll_finish given.1 group settled block written flat
  buffer := nofun
  group _ given _ inner := flatAll_risen given.1 (flatAll_content given inner)

/-- **The pass leaves flat nodes** of the nodes of an evaluated tree. -/
theorem flat_layAll {done : List GroupId} (outside : around.written) (ns : List Node)
    (settled : settledAll true ns) (rules : ∀ m ∈ nodesAll ns, m.selective)
    (sheets : ∀ n ∈ ns, sheetless n.children) (ordered : BufferStep.Ordered done (stepsAll ns)) :
    Reaches FlatGroup done (layAll around ns) (closed (stepsAll ns)) (FlatAll true) := by
  have each := flatness_sound.reaches_layEach (proper_of_written outside) ns settled
    (fun n hn => ⟨outside, fun m hm => rules m (mem_nodesAll.2 ⟨n, hn, hm⟩), sheets n hn⟩) ordered
  exact Account.reaches_layAll each fun parts h => flatAll_flatMap h fun _ _ _ => rfl

end Layout

/-- What a run makes of a document, and what the layout pass leaves of that: a run keeps the
nesting rules, as they hold in the document and in the mixins that it includes. -/
theorem Document.flat_of_run (depth : Nat) (options : Options) (log : Log) {info : Info}
    {cs nodes : List Node} {w : World} (fresh : Node.freshAll true cs)
    (nesting : Nesting.check (.plain info .root cs) = .ok ())
    (run : Eval.runFresh options #[] log
      (fun scope => (Recursion.ofDepth depth).visit scope (.plain info .root cs)) =
        (.ok nodes, w)) :
    ∃ children, nodes = [.plain info.apart .root children] ∧ Node.settledAll true children ∧
      BufferStep.Ordered [] (Node.stepsAll children) ∧
      (∀ g ∈ BufferStep.closed (Node.stepsAll children), g < w.groups.size) ∧
      ∀ (notes : Log) (left : List Node),
        (Layout.layAll .root children).outcome { groups := w.groups, log := notes } = .ok left →
          Layout.FlatAll true left := by
  obtain ⟨children, content, settled, ordered, bound⟩ :=
    Document.ordered_of_run true depth options log fresh nesting run
  obtain ⟨children', content', expands⟩ := Evaluation.expands_of_run depth options log run
  obtain rfl : children' = children := by
    rw [content] at content'
    cases content'
    rfl
  refine ⟨_, content, settled, ordered, bound, fun notes left outcome => ?_⟩
  have inside : Nesting.checkAll [.root] cs = .ok () := by
    rw [Nesting.check, Nesting.checkIn] at nesting
    exact (Nesting.bind_eq_ok nesting).2
  have mixins := Nesting.mixinBodies_of_checkAll fresh inside
  have rules := expands.selective (fun b hb => (mixins b hb).1) fresh
  have sheets := expands.sheetsOutside (fun b hb => (mixins b hb).2)
    (Nesting.sheetsOutside_of_checkAll fresh inside)
  have pass : Layout.Reaches Layout.FlatGroup [] (Layout.layAll .root children')
      (BufferStep.closed (Node.stepsAll children')) (Layout.FlatAll true) :=
    Layout.flat_layAll rfl children' settled rules sheets ordered
  have none (s : Layout.State) : s.Ended Layout.FlatGroup [] :=
    fun g hg => absurd hg List.not_mem_nil
  obtain ⟨-, -, flat⟩ := pass _ left (none _) bound outcome
  exact flat

/-- **What comes out of the pass is in normal form.**  Take a text that can be read, with its
nesting right, and evaluated.  What the evaluation makes of it is one tree, of what an
evaluation produces; and if the tree can be laid out, it becomes one document in normal
form. -/
theorem Document.normal_of_layOut {depth : Nat} {o : Options} {text : String} {tree : Node}
    {evaluated : Captured (List Node)} {log log' notes notes' : Log}
    (load : Document.load o text log = (.ok tree, log'))
    (run : Document.evaluateTo depth o { content := tree } notes = (.ok evaluated, notes')) :
    ∃ root, evaluated.content = [root] ∧ (∀ n ∈ root.nodes, n.produced) ∧
      ∀ (before after : Log) (laid : Captured (List Node)),
        Document.layOut { content := root, groups := evaluated.groups } before =
          (.ok laid, after) →
        ∃ sheet, laid.content = [sheet] ∧ sheet.kind = .root ∧ sheet.normal := by
  obtain ⟨cs, rfl, fresh, right⟩ := Document.document_of_load load
  obtain ⟨w, run, groups⟩ := Document.run_of_evaluateTo run
  obtain ⟨children, content, settled, -, -, pass⟩ :=
    Document.flat_of_run depth o notes fresh right run
  refine ⟨_, content, fun n hn => ?_, fun before after laid layout => ?_⟩
  · rcases List.mem_cons.1 hn with rfl | hn
    · rfl
    · exact Node.produced_of_settledAll settled n hn
  obtain ⟨left, outcome, one⟩ := Document.layAll_of_layOut layout
  have flat := pass before left (groups ▸ outcome)
  refine ⟨_, one, rfl, Node.normal_plain.2 ⟨rfl, fun e => absurd e Bool.false_ne_true,
    fun c hc => ?_, fun c hc => ?_⟩⟩
  · exact (flat c hc).holds
  · exact (flat c hc).normal

/-- A buffer inside a query that is flushed inside two of them. -/
theorem Document.normal_of_layOut_queries :
    let text := "@media x \x7b @buffer b \x7b c: d; \x7d @media y \x7b @flush b; \x7d \x7d"
    ∃ tree log evaluated notes root laid after sheet,
      Document.load {} text #[] = (.ok tree, log) ∧
      Document.evaluateTo 9 {} { content := tree } log = (.ok evaluated, notes) ∧
      evaluated.content = [root] ∧ (∀ n ∈ root.nodes, n.produced) ∧
      Document.layOut { content := root, groups := evaluated.groups } notes =
        (.ok laid, after) ∧
      laid.content = [sheet] ∧ sheet.kind = .root ∧ sheet.normal := by
  intro text
  have compiles : ((Document.load {} text >>= Document.flatTo 9 {}) #[]).1.isOk := by
    decide +kernel
  rcases e : (Document.load {} text >>= Document.flatTo 9 {}) #[] with ⟨outcome, after⟩
  rw [e] at compiles
  cases outcome with
  | error f => cases compiles
  | ok nodes =>
    obtain ⟨tree, log, load, flat⟩ := Logged.bind_eq_ok e
    obtain ⟨evaluated, notes, run, layout⟩ := Document.stages_of_flatTo flat
    obtain ⟨root, content, made, keeps⟩ := normal_of_layOut load run
    obtain ⟨laid, lays, -⟩ := layout root content
    obtain ⟨sheet, one, document, normal⟩ := keeps notes after laid lays
    exact ⟨tree, log, evaluated, notes, root, laid, after, sheet, load, run, content, made, lays,
      one, document, normal⟩

end Stylesheet
