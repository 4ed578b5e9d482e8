/-
# What a laid-out node leaves

A node is `Node.laidOut` if nothing is left to do about it: no buffer and no flush is in
it, its rules have selectors, and no node in it is a group.

Some nodes that have been left inside a rule are not yet where they will be: declarations
and comments will stay in the rule, and the others will follow it.  `Layout.stands`
is what they place then.  Finishing a node around such nodes leaves laid-out nodes that
place the same as the node did (`Layout.finish_spec`).
-/

import Stylesheet.Proofs.Layout.Placement
import Stylesheet.Proofs.Node.Copy
import Stylesheet.Proofs.Node.Walk
import Mathlib.Data.List.Count
import Mathlib.Data.List.Perm.Basic

namespace Stylesheet

/-- The contents of groups that hold nothing. -/
abbrev Contents.empty : Contents := fun _ => []

namespace Head

/-- Whether a node with this head may be in a laid-out tree. -/
def final : Head → Bool
  | declaration .. | comment .. | importSheet _ | media .. | supports .. | directive .. => true
  | rule _ resolved => resolved.isSome
  | _ => false

/-- Whether a node with this head may hold others in a laid-out tree. -/
def isBlock : Head → Bool
  | rule .. | media .. | supports .. | directive .. => true
  | _ => false

/-- The head of a block that has been settled may stay. -/
theorem final_of_settled {h : Head} (settled : h.settled) (block : h.isBlock) : h.final := by
  cases h with
  | rule => exact settled
  | media | supports | directive => rfl
  | _ => cases block

end Head

namespace Node

mutual

/-- Whether nothing is left to do about a tree. -/
def laidOut : Node → Bool
  | plain i h cs => i.group.isNone && h.final && (h.isBlock || cs.isEmpty) && laidOutAll cs
  | cond .. => false

/-- Whether nothing is left to do about some trees. -/
def laidOutAll : List Node → Bool
  | [] => true
  | n :: ns => n.laidOut && laidOutAll ns

end

/-- A node without clauses is laid out if it is no group, may stay, and so may its content. -/
theorem laidOut_plain {i : Info} {h : Head} {cs : List Node} :
    (plain i h cs).laidOut ↔
      i.group = none ∧ h.final ∧ (h.isBlock ∨ cs = []) ∧ laidOutAll cs := by
  simp [laidOut, and_assoc]

/-- Some nodes are laid out if the first and the others are. -/
theorem laidOutAll_cons {n : Node} {ns : List Node} :
    laidOutAll (n :: ns) ↔ n.laidOut ∧ laidOutAll ns := by
  rw [laidOutAll, Bool.and_eq_true]

/-- A node that nothing is in. -/
theorem laidOutAll_leaf {i : Info} {h : Head} (group : i.group = none) (final : h.final) :
    laidOutAll [plain i h []] :=
  laidOutAll_cons.2 ⟨laidOut_plain.2 ⟨group, final, .inr rfl, rfl⟩, rfl⟩

/-- Some nodes are laid out if each of them is. -/
theorem laidOutAll_iff {ns : List Node} : laidOutAll ns ↔ ∀ n ∈ ns, n.laidOut := by
  induction ns with
  | nil => simp [laidOutAll]
  | cons n ns ih => simp [laidOutAll, ih]

/-- Two lists that are laid out, one after the other. -/
theorem laidOutAll_append {ns ms : List Node} (h : laidOutAll ns) (k : laidOutAll ms) :
    laidOutAll (ns ++ ms) := by
  rw [laidOutAll_iff] at *
  intro n hn
  exact (List.mem_append.1 hn).elim (h n) (k n)

/-- Some of a list of laid-out nodes. -/
theorem laidOutAll_filter {ns : List Node} (h : laidOutAll ns) (p : Node → Bool) :
    laidOutAll (ns.filter p) := by
  rw [laidOutAll_iff] at *
  exact fun n hn => h n (List.mem_filter.1 hn).1

/-- What is laid out is no group. -/
theorem group_of_laidOut {n : Node} (h : n.laidOut) : n.info.group = none := by
  match n with
  | .plain i head cs => exact (laidOut_plain.1 h).1

/-- A mark at the end of a group leaves nodes laid out. -/
theorem laidOutAll_changeLast {ns : List Node} (b : Bool) (h : laidOutAll ns) :
    laidOutAll (Layout.changeLast (markGroupEnd b) ns) := by
  induction ns with
  | nil => rfl
  | cons n ns ih =>
    obtain ⟨first, others⟩ := laidOutAll_cons.1 h
    cases ns with
    | nil =>
      match n with
      | .plain i head cs => exact h
    | cons m ns => exact laidOutAll_cons.2 ⟨first, ih others⟩

mutual

/-- Copying makes no difference to what is laid out. -/
theorem copy_of_laidOut {n : Node} (h : n.laidOut) : n.copy = n := by
  match n with
  | .plain i head cs =>
    obtain ⟨group, -, -, inner⟩ := laidOut_plain.1 h
    have apart : i.apart = i := by rw [Info.apart, ← group]
    rw [copy, apart, head.copy_eq, copyAll_of_laidOutAll inner]

/-- A copy of nodes that are laid out is the same. -/
theorem copyAll_of_laidOutAll {ns : List Node} (h : laidOutAll ns) : copyAll ns = ns := by
  match ns with
  | [] => rfl
  | n :: ns =>
    obtain ⟨first, others⟩ := laidOutAll_cons.1 h
    rw [copyAll, copy_of_laidOut first, copyAll_of_laidOutAll others]

end

mutual

/-- The walk through a laid-out tree comes past nothing. -/
theorem steps_of_laidOut {n : Node} (h : n.laidOut) : n.steps = [] := by
  match n with
  | .plain i head cs =>
    obtain ⟨-, final, -, inner⟩ := laidOut_plain.1 h
    rw [steps_plain, stepsAll_of_laidOutAll inner]
    cases head with
    | buffer | flush => cases final
    | _ => rfl

/-- Nothing in nodes that are laid out is a step. -/
theorem stepsAll_of_laidOutAll {ns : List Node} (h : laidOutAll ns) : stepsAll ns = [] := by
  match ns with
  | [] => rfl
  | n :: ns =>
    obtain ⟨first, others⟩ := laidOutAll_cons.1 h
    rw [stepsAll_cons, steps_of_laidOut first, stepsAll_of_laidOutAll others]
    rfl

end

@[simp] theorem map_within_nil (l : List Placed) : l.map (Placed.within []) = l :=
  List.map_id' l

mutual

/-- Of what a laid-out node places, only what stays in a rule has neither at-rules nor a
selector of its own. -/
theorem staysInRule_of_placed {selector : Option (List String)} {n : Node} (h : n.laidOut)
    {p : Placed} (mem : p ∈ n.placed Contents.empty selector) (rules : p.rules = [])
    (bare : p.selector = none) : selector = none ∧ Layout.staysInRule n := by
  match n with
  | .plain i head cs =>
    obtain ⟨-, final, block, inner⟩ := laidOut_plain.1 h
    cases head with
    | declaration | comment =>
      cases List.mem_singleton.1 mem
      exact ⟨bare, rfl⟩
    | importSheet =>
      cases block.resolve_left (nomatch ·)
      cases mem
    | rule _ resolved =>
      -- inside a rule everything has the selector of the rule
      obtain ⟨q, hq, rfl⟩ := List.mem_map.1 mem
      have absent : resolved = none := selector_of_placedAll inner hq rules bare
      rw [absent] at final
      cases final
    | media | supports | directive =>
      obtain ⟨q, -, rfl⟩ := List.mem_map.1 mem
      cases rules
    | _ => cases final

/-- Something stands with nothing around it only where there is no rule. -/
theorem selector_of_placedAll {selector : Option (List String)} {ns : List Node}
    (h : laidOutAll ns) {p : Placed} (mem : p ∈ placedAll Contents.empty selector ns)
    (rules : p.rules = []) (bare : p.selector = none) : selector = none := by
  match ns with
  | [] => cases mem
  | n :: ns =>
    obtain ⟨first, others⟩ := laidOutAll_cons.1 h
    rw [placedAll, List.mem_append] at mem
    rcases mem with mem | mem
    · exact (staysInRule_of_placed first mem rules bare).1
    · exact selector_of_placedAll others mem rules bare

end

/-- What some nodes place is what each of them places. -/
theorem mem_placedAll {content : Contents} {selector : Option (List String)} {ns : List Node}
    {p : Placed} :
    p ∈ placedAll content selector ns ↔ ∃ n ∈ ns, p ∈ n.placed content selector := by
  induction ns with
  | nil => simp [placedAll]
  | cons n ns ih => simp [placedAll, ih]

end Node

namespace Layout

open Node

/-- The selectors of the rule directly around, if there is one. -/
def Around.selector : Around → Option (List String)
  | rule _ (.rule _ resolved) => resolved
  | _ => none

/-- Whether what is directly around has selectors if it is a rule. -/
def Around.proper : Around → Bool
  | rule _ (.rule _ resolved) => resolved.isSome
  | rule .. => false
  | _ => true

/-- A settled rule has its selectors for what is in it. -/
theorem proper_content {around : Around} (proper : around.proper) (info : Info) {head : Head}
    (settled : head.settled) :
    (around.content info head).proper := by
  cases head with
  | rule => exact settled
  | media | supports | buffer =>
    cases around with
    | rule _ outer => cases outer <;> exact proper
    | _ => rfl
  | _ => rfl

/-- What nodes place that have been left inside a rule with these selectors: declarations
and comments stay in it, and the others follow it. -/
def stands (selector : Option (List String)) (left : List Node) : List Placed :=
  placedAll .empty selector (left.filter staysInRule) ++
    placedAll .empty none (left.filter fun n => !staysInRule n)

variable {around : Around} {selector : Option (List String)} {l : List Node}

/-- What two lists place in a rule, one after the other, but for the order. -/
theorem stands_append (selector : Option (List String)) (l l' : List Node) :
    (stands selector (l ++ l')).Perm (stands selector l ++ stands selector l') := by
  refine List.perm_iff_count.2 fun p => ?_
  simp only [stands, List.filter_append, placedAll_append, List.count_append]
  omega

/-- Outside every rule it makes no difference. -/
theorem stands_none (l : List Node) : (stands none l).Perm (placedAll .empty none l) := by
  rw [stands, ← placedAll_append]
  exact placedAll_perm (List.filter_append_perm staysInRule l)

/-- What a rule does not keep places what it does outside. -/
theorem stands_of_hoisted (h : ∀ n ∈ l, staysInRule n = false) :
    stands selector l = placedAll .empty none l := by
  have stay : l.filter staysInRule = [] :=
    List.filter_eq_nil_iff.2 fun n hn => by simp [h n hn]
  have follow : (l.filter fun n => !staysInRule n) = l :=
    List.filter_eq_self.2 fun n hn => by simp [h n hn]
  rw [stands, stay, follow]
  rfl

/-- Copies of laid-out nodes place what a flush puts where they are copied to. -/
theorem stands_flushed (selector : Option (List String)) (h : laidOutAll l) :
    (stands selector l).Perm ((placedAll .empty none l).map (Placed.flushed selector)) := by
  have stay (n : Node) (stays : staysInRule n) (out : n.laidOut) :
      n.placed .empty selector = (n.placed .empty none).map (Placed.flushed selector) := by
    match n with
    | .plain i head cs =>
      cases head with
      | declaration | comment => rfl
      | _ => cases stays
  have stayAll (ns : List Node) (stays : ∀ n ∈ ns, staysInRule n) (out : laidOutAll ns) :
      placedAll .empty selector ns =
        (placedAll .empty none ns).map (Placed.flushed selector) := by
    induction ns with
    | nil => rfl
    | cons n ns ih =>
      obtain ⟨first, others⟩ := laidOutAll_cons.1 out
      rw [placedAll, placedAll, List.map_append, stay n (stays n List.mem_cons_self) first,
        ih (fun m hm => stays m (List.mem_cons_of_mem n hm)) others]
  -- what follows the rule has at-rules or a selector of its own, so a flush leaves it alone
  have follow : (placedAll .empty none (l.filter fun n => !staysInRule n)).map
      (Placed.flushed selector) = placedAll .empty none (l.filter fun n => !staysInRule n) := by
    refine (List.map_congr_left fun p hp => ?_).trans (List.map_id _)
    obtain ⟨n, hn, hp⟩ := mem_placedAll.1 hp
    obtain ⟨mem, follows⟩ := List.mem_filter.1 hn
    refine if_neg fun bare => ?_
    have stays := (staysInRule_of_placed (laidOutAll_iff.1 h n mem) hp bare.1 bare.2).2
    rw [stays] at follows
    cases follows
  refine List.Perm.trans ?_ ((stands_none l).map _)
  rw [stands, stands, List.map_append, follow, stayAll _ _ (laidOutAll_filter h _)]
  exact fun n hn => (List.mem_filter.1 hn).2

/-- Marks of the ends of groups do not matter. -/
theorem stands_markLast (around : Around) (l : List Node) :
    (stands selector (markLast around l)).Perm (stands selector l) := by
  have one (n : Node) : stands selector [n.markGroupEnd true] = stands selector [n] := by
    have kind : staysInRule (n.markGroupEnd true) = staysInRule n := by cases n <;> rfl
    have same (s : Option (List String)) :
        (n.markGroupEnd true).placed Contents.empty s = n.placed Contents.empty s :=
      placed_withInfo _ n
    cases e : staysInRule n <;> simp [stands, List.filter, kind, e, placedAll, same]
  cases around with
  | rule => exact List.Perm.refl _
  | _ =>
    show (stands selector (changeLast _ l)).Perm _
    induction l with
    | nil => exact List.Perm.refl _
    | cons n l ih =>
      cases l with
      | nil => exact List.Perm.of_eq (one n)
      | cons m l =>
        refine (stands_append selector [n] _).trans ?_
        exact (ih.append_left _).trans (stands_append selector [n] (m :: l)).symm

/-! ### What is left where a node stands -/

/-- Marks of the ends of groups leave the kinds of nodes. -/
theorem kinds_changeLast (b : Bool) (ns : List Node) :
    (changeLast (markGroupEnd b) ns).map Node.kind = ns.map Node.kind := by
  induction ns with
  | nil => rfl
  | cons n ns ih =>
    cases ns with
    | nil => cases n <;> rfl
    | cons m ns => exact congrArg (n.kind :: ·) ih

/-- Marking the last node leaves the kinds. -/
theorem kinds_markLast (around : Around) (ns : List Node) :
    (markLast around ns).map Node.kind = ns.map Node.kind := by
  cases around with
  | rule => rfl
  | _ => exact kinds_changeLast true ns

/-- Marking the last node leaves what is placed. -/
theorem placedAll_markLast (around : Around) (ns : List Node) :
    placedAll .empty selector (markLast around ns) = placedAll .empty selector ns := by
  cases around with
  | rule => rfl
  | _ => exact placedAll_changeLast (fun n => placed_withInfo _ n) ns

/-- Marking the last node leaves nodes laid out. -/
theorem laidOutAll_markLast (around : Around) {ns : List Node} (h : laidOutAll ns) :
    laidOutAll (markLast around ns) := by
  cases around with
  | rule => exact h
  | _ => exact laidOutAll_changeLast true h

/-- Whether nodes all follow the rule that they are in. -/
def hoisted (ns : List Node) : Bool :=
  ns.all fun n => !staysInRule n

/-- A mark at the end of a group leaves nodes hoisted. -/
theorem hoisted_changeLast {ns : List Node} (b : Bool) (h : hoisted ns) :
    hoisted (changeLast (markGroupEnd b) ns) := by
  have byKind (l : List Node) :
      hoisted l = (l.map Node.kind).all fun k => !(k == .declaration || k == .comment) := by
    rw [List.all_map]
    rfl
  rw [byKind, kinds_changeLast, ← byKind]
  exact h

/-- Marking the last node leaves nodes hoisted. -/
theorem hoisted_markLast (around : Around) {ns : List Node} (h : hoisted ns) :
    hoisted (markLast around ns) := by
  cases around with
  | rule => exact h
  | _ => exact hoisted_changeLast true h

/-- Hoisted nodes place what they do outside. -/
theorem stands_hoisted {ns : List Node} (h : hoisted ns) :
    stands selector ns = placedAll .empty none ns :=
  stands_of_hoisted fun n hn => by simpa using List.all_eq_true.1 h n hn

/-- Nodes that are laid out, follow the rule that they are in, and place what `l` says. -/
structure Leaves (left : List Node) (l : List Placed) : Prop where
  laidOut : laidOutAll left
  hoisted : hoisted left
  places : Placed.Alike (placedAll .empty none left) l

/-- A block leaves itself and others, or the others if it is empty. -/
theorem leaves_before (around : Around) {info : Info} {head : Head} {cs others : List Node}
    {l : List Placed} (group : info.group = none) (final : head.final) (block : head.isBlock)
    (inner : laidOutAll cs) (others_laidOut : laidOutAll others) (others_hoisted : hoisted others)
    (places : Placed.Alike
      ((placedAll .empty (head.selectors none) cs).map (Placed.within head.atRules) ++
        placedAll .empty none others) l) :
    Leaves (Laid.before around (.plain info head cs) others).left l := by
  have own : (Node.plain info head cs).placed .empty none =
      (placedAll .empty (head.selectors none) cs).map (Placed.within head.atRules) := by
    cases head with
    | rule | media | supports | directive => rfl
    | _ => cases block
  unfold Laid.before
  split
  · rename_i empty
    have none' : cs = [] := List.isEmpty_iff.1 empty
    subst none'
    exact ⟨laidOutAll_markLast around others_laidOut, hoisted_markLast around others_hoisted,
      by rw [placedAll_markLast]; exact places⟩
  · have node : (Node.plain info head cs).laidOut :=
      laidOut_plain.2 ⟨group, final, .inl block, inner⟩
    have follows : staysInRule (.plain info head cs) = false := by
      cases head with
      | rule | media | supports | directive => rfl
      | _ => cases block
    refine ⟨laidOutAll_markLast around (laidOutAll_cons.2 ⟨node, others_laidOut⟩),
      hoisted_markLast around ?_, ?_⟩
    · rw [hoisted, List.all_cons, follows]
      exact others_hoisted
    · rw [placedAll_markLast, placedAll, own]
      exact places

/-- A rule leaves what stands in it, with what it does not keep after it. -/
theorem leaves_finishRule (around : Around) {info : Info} (group : info.group = none)
    (selectors : Template) {resolved : Option (List String)} (final : resolved.isSome)
    {laid : List Node} (out : laidOutAll laid) :
    Leaves (finishRule around info (.rule selectors resolved) laid).left
      (stands resolved laid) := by
  refine leaves_before around group final rfl (laidOutAll_filter out _) (laidOutAll_filter out _)
    ?_ ?_
  · exact List.all_eq_true.2 fun n hn => (List.mem_filter.1 hn).2
  · show Placed.Alike (List.map (Placed.within []) _ ++ _) _
    rw [map_within_nil]
    exact .refl _

/-- The content of a node that rises is laid out, and places what it did. -/
theorem risen_spec {around : Around} (proper : around.proper) {laid : List Node}
    (out : laidOutAll laid) :
    laidOutAll (risen around laid) ∧
      Placed.Alike (placedAll .empty none (risen around laid)) (stands around.selector laid) := by
  cases around with
  | rule info head =>
    cases head with
    | rule selectors resolved =>
      have left : Leaves (finishRule .other info.apart
          (.rule (Expr.copyFragments selectors) resolved) laid).left (stands resolved laid) :=
        leaves_finishRule .other rfl _ proper out
      refine ⟨laidOutAll_changeLast false left.laidOut, ?_⟩
      show Placed.Alike (placedAll .empty none (changeLast (markGroupEnd false) _)) _
      have unmarked (n : Node) :
          (n.markGroupEnd false).placed Contents.empty none = n.placed Contents.empty none :=
        placed_withInfo _ n
      rw [placedAll_changeLast unmarked]
      exact left.places
    | _ => cases proper
  | _ => exact ⟨out, (Placed.Alike.of_perm (stands_none laid)).symm⟩

/-- What is of the kind of queries is a query. -/
theorem eq_media_of_kind {n : Node} (h : n.kind == .media) :
    ∃ info query resolved cs, n = .plain info (.media query resolved) cs := by
  match n with
  | .plain info head cs =>
    cases head with
    | media query resolved => exact ⟨info, query, resolved, cs, rfl⟩
    | _ => cases h

/-- Queries that have been joined to the one around them place what they did in it. -/
theorem leaves_joinedQueries (outer : Option String) {laid : List Node} (out : laidOutAll laid) :
    Leaves (joinedQueries outer laid)
      ((placedAll .empty none (laid.filter (·.kind == .media))).map
        (Placed.within [.media outer])) := by
  rw [joinedQueries]
  have medias : ∀ n ∈ laid.filter (·.kind == .media), n.kind == .media :=
    fun n hn => (List.mem_filter.1 hn).2
  have out := laidOutAll_filter out (·.kind == .media)
  generalize laid.filter (·.kind == .media) = ns at medias out
  induction ns with
  | nil => exact ⟨rfl, rfl, .refl []⟩
  | cons n ns ih =>
    obtain ⟨first, others⟩ := laidOutAll_cons.1 out
    obtain ⟨info, query, inner, cs, rfl⟩ := eq_media_of_kind (medias n List.mem_cons_self)
    have rest := ih (fun m hm => medias m (List.mem_cons_of_mem _ hm)) others
    have joined := Placed.Alike.within_within outer inner (placedAll .empty none cs)
    refine ⟨laidOutAll_cons.2 ⟨first, rest.laidOut⟩, rest.hoisted, ?_⟩
    rw [List.map_cons, placedAll, placedAll, List.map_append]
    exact joined.symm.append rest.places

/-- A query leaves what is in it, with the query around it. -/
theorem leaves_finishMedia (around : Around) {info : Info} (group : info.group = none)
    (query : Template) (resolved : Option String) {laid : List Node} (out : laidOutAll laid) :
    Leaves (finishMedia around info query resolved laid).left
      ((placedAll .empty none laid).map (Placed.within [.media resolved])) := by
  have queries := leaves_joinedQueries resolved out
  refine leaves_before around group rfl rfl (laidOutAll_filter out _) queries.laidOut
    queries.hoisted ?_
  have apart : (placedAll .empty none (laid.filter (·.kind != .media)) ++
      placedAll .empty none (laid.filter (·.kind == .media))).Perm
        (placedAll .empty none laid) := by
    rw [← placedAll_append]
    refine placedAll_perm (List.perm_append_comm.trans ?_)
    exact List.filter_append_perm (·.kind == .media) laid
  refine ((Placed.Alike.refl _).append queries.places).trans ?_
  show Placed.Alike (List.map (Placed.within [.media resolved]) _ ++ _) _
  rw [← List.map_append]
  exact (Placed.Alike.of_perm apart).within _

/-- A condition leaves what is in it, with the condition around it. -/
theorem leaves_finishSupports (around : Around) {info : Info} (group : info.group = none)
    (condition : Template) (resolved : Option String) {laid : List Node}
    (out : laidOutAll laid) :
    Leaves (finishSupports around info (.supports condition resolved) laid).left
      ((placedAll .empty none laid).map (Placed.within [.supports resolved])) := by
  refine leaves_before around group rfl rfl out rfl rfl ?_
  rw [placedAll, List.append_nil]
  exact .refl _

/-- **A block with laid-out content leaves laid-out nodes** that follow the rule that it is
in and place what its content does inside it. -/
theorem leaves_finish {around : Around} (proper : around.proper) {info : Info} {head : Head}
    (group : info.group = none) (final : head.final) (block : head.isBlock) {laid : List Node}
    (out : laidOutAll laid) :
    Leaves (finish around info head laid).left
      ((stands (head.selectors around.selector) laid).map (Placed.within head.atRules)) := by
  obtain ⟨risenOut, risenPlaces⟩ := risen_spec proper out
  cases head with
  | rule selectors resolved =>
    show Leaves _ (List.map (Placed.within []) _)
    rw [map_within_nil]
    exact leaves_finishRule around group selectors final out
  | media query resolved =>
    have left := leaves_finishMedia around group query resolved risenOut
    exact ⟨left.laidOut, left.hoisted, left.places.trans (risenPlaces.within _)⟩
  | supports condition resolved =>
    have left := leaves_finishSupports around group condition resolved risenOut
    exact ⟨left.laidOut, left.hoisted, left.places.trans (risenPlaces.within _)⟩
  | directive prelude resolved hasBlock =>
    have node : (Node.plain info (.directive prelude resolved hasBlock) laid).laidOut :=
      laidOut_plain.2 ⟨group, rfl, .inl rfl, out⟩
    refine ⟨laidOutAll_cons.2 ⟨node, rfl⟩, rfl, ?_⟩
    show Placed.Alike (placedAll _ _ [_]) _
    rw [placedAll_singleton]
    exact (Placed.Alike.of_perm (stands_none laid)).symm.within _
  | _ => cases block

end Layout
end Stylesheet
