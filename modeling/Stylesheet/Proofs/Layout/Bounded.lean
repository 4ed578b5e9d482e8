/-
# The pass keeps within the bounds of a tree

What the pass leaves of a node of an evaluated tree ends groups only where `Node.breaks` says
(`Layout.bounded_layEach`), if nothing in the tree ends one.  Marking the last node of a list
gives a bound of its own, taking that mark away gives the old one back, and queries that are
joined keep their marks; the groups that have come to their end hold what is said of them.
-/

import Stylesheet.Proofs.Evaluation.Unended
import Stylesheet.Proofs.Layout.Breaks
import Stylesheet.Proofs.Layout.Conservation

namespace Stylesheet
namespace Layout

open Node
open Breaks (considers ofKind)
open BufferStep (closed)

variable {groups : GroupId → Bool → Breaks} {around : Around} {info : Info} {head : Head}
  {n own : Node} {cs laid ns ms others : List Node} {queries : Bool} {b : Breaks}

/-! ### Marks -/

/-- The ends of groups in two lists, one after the other. -/
theorem groupEnds_append (queries : Bool) (ns ms : List Node) :
    groupEnds queries (ns ++ ms) = groupEnds queries ns ++ groupEnds queries ms := by
  rw [groupEnds, List.filter_append, List.map_append]
  rfl

/-- Leaving out nodes leaves out their ends of groups. -/
theorem groupEnds_filter (p : Node → Bool) :
    (groupEnds queries (ns.filter p)).Sublist (groupEnds queries ns) :=
  (List.filter_sublist.filter _).map _

/-- The end of a group of one node, if it is considered. -/
theorem groupEnds_singleton :
    groupEnds queries [n] = if considers queries n.kind then [n.info.groupEnd] else [] := by
  rw [groupEnds, List.filter_singleton]
  cases considers queries n.kind <;> rfl

/-- A node that ends no group. -/
theorem allows_singleton (h : info.groupEnd = false) :
    (ofKind queries head.kind).Allows (groupEnds queries [.plain info head cs]) := by
  rw [groupEnds_singleton, ofKind]
  show Breaks.Allows _ (if considers queries head.kind then [info.groupEnd] else [])
  rw [h]
  cases considers queries head.kind with
  | true => exact fun e he => List.mem_singleton.1 he
  | false => rfl

/-- The last node of a list is changed, and no other. -/
theorem changeLast_concat (f : Node → Node) (ns : List Node) (n : Node) :
    changeLast f (ns ++ [n]) = ns ++ [f n] := by
  induction ns with
  | nil => rfl
  | cons m ns ih =>
    cases ns with
    | nil => rfl
    | cons => exact congrArg (m :: ·) ih

/-- What is marked last is what counts. -/
theorem unmarked_changeLast (ns : List Node) :
    changeLast (markGroupEnd false) (changeLast (markGroupEnd true) ns) =
      changeLast (markGroupEnd false) ns := by
  obtain rfl | ⟨init, n, rfl⟩ := ns.eq_nil_or_concat
  · rfl
  · rw [List.concat_eq_append, changeLast_concat, changeLast_concat, changeLast_concat]
    cases n <;> rfl

/-- The last of some nodes is marked, or its mark is taken away. -/
theorem allows_changeLast (h : b.Allows (groupEnds queries ns)) :
    (b.marked false).Allows (groupEnds queries (changeLast (markGroupEnd true) ns)) ∧
      b.Allows (groupEnds queries (changeLast (markGroupEnd false) ns)) := by
  obtain rfl | ⟨init, n, rfl⟩ := ns.eq_nil_or_concat
  · exact ⟨h.marked_self false, h⟩
  · rw [List.concat_eq_append] at h ⊢
    have kind (c : Bool) : (n.markGroupEnd c).kind = n.kind := by cases n <;> rfl
    have mark (c : Bool) : (n.markGroupEnd c).info.groupEnd = c := by cases n <;> rfl
    rw [changeLast_concat, changeLast_concat, groupEnds_append, groupEnds_append,
      groupEnds_singleton, groupEnds_singleton, kind, kind, mark, mark]
    rw [groupEnds_append, groupEnds_singleton] at h
    cases e : considers queries n.kind with
    | true =>
      rw [e] at h
      exact h.set_last
    | false =>
      rw [e] at h
      exact ⟨h.marked_self false, h⟩

/-- Whether what is directly around is a rule. -/
def Around.inRule : Around → Bool
  | rule .. => true
  | _ => false

/-- Marking the last node changes the ends of groups as the bound says. -/
theorem allows_markLast (h : b.Allows (groupEnds queries ns)) :
    (b.marked around.inRule).Allows (groupEnds queries (markLast around ns)) := by
  cases around with
  | rule => exact h.marked_self true
  | _ => exact (allows_changeLast h).1

/-! ### Finishing nodes -/

/-- A block and what follows it, without the block if it is empty. -/
def Laid.nodes (own : Node) (others : List Node) : List Node :=
  if own.children.isEmpty then others else own :: others

/-- A block and what follows it, of which the last is marked. -/
theorem left_before (around : Around) (own : Node) (others : List Node) :
    (Laid.before around own others).left = markLast around (Laid.nodes own others) := by
  unfold Laid.before Laid.nodes
  split <;> rfl

/-- A block before others ends no group of its own. -/
theorem allows_nodes {kind : Kind} (is : head.kind = kind) (h : info.groupEnd = false)
    (k : b.Allows (groupEnds queries others)) :
    (ofKind queries kind ++ b).Allows
      (groupEnds queries (Laid.nodes (.plain info head cs) others)) := by
  subst is
  unfold Laid.nodes
  split
  · have nothing : (ofKind queries head.kind).Allows [] := Breaks.allows_nil _
    exact nothing.append k
  · show Breaks.Allows _ (groupEnds queries ([.plain info head cs] ++ others))
    rw [groupEnds_append]
    exact (allows_singleton h).append k

/-- Nodes that are laid out, of which those may end groups that `bound` says. -/
structure Bounded (bound : Bool → Breaks) (ns : List Node) : Prop where
  laidOut : laidOutAll ns
  allows : ∀ queries, (bound queries).Allows (groupEnds queries ns)

/-- Two lists are bounded, one after the other. -/
theorem Bounded.append {bound bound' : Bool → Breaks} (h : Bounded bound ns)
    (k : Bounded bound' ms) :
    Bounded (fun queries => bound queries ++ bound' queries) (ns ++ ms) where
  laidOut := laidOutAll_append h.laidOut k.laidOut
  allows queries := by
    rw [groupEnds_append]
    exact (h.allows queries).append (k.allows queries)

/-- Bounded nodes, of which the last is marked. -/
theorem Bounded.markLast {bound : Bool → Breaks} (h : Bounded bound ns) :
    Bounded (fun queries => (bound queries).marked around.inRule) (markLast around ns) where
  laidOut := laidOutAll_markLast around h.laidOut
  allows queries := allows_markLast (h.allows queries)

/-- Whether what is directly around ends no group if it is a rule. -/
def Around.unended : Around → Prop
  | rule info _ => info.groupEnd = false
  | _ => True

/-- The content of a node that rises. -/
theorem allows_risen (proper : around.proper) (unended : around.unended)
    (h : (breaksAll groups around.inRule queries cs).Allows (groupEnds queries laid)) :
    (held groups around.inRule queries cs).Allows (groupEnds queries (risen around laid)) := by
  cases around with
  | rule info head =>
    cases head with
    | rule selectors resolved =>
      rw [risen, finishRule, left_before]
      show Breaks.Allows _ (groupEnds queries (changeLast _ (changeLast _ _)))
      rw [unmarked_changeLast]
      have apart : info.apart.groupEnd = false := unended
      have follows := h.sublist (groupEnds_filter fun n => !staysInRule n)
      have content : (ofKind queries .rule ++ breaksAll groups true queries cs).Allows
          (groupEnds queries (Laid.nodes
            (.plain info.apart (Head.rule selectors resolved).copy (laid.filter staysInRule))
            (laid.filter fun n => !staysInRule n))) :=
        allows_nodes rfl apart follows
      exact (allows_changeLast content).2
    | _ => cases proper
  | _ => exact h

/-- Joining queries leaves their ends of groups. -/
theorem groupEnds_joinedQueries (outer : Option String) :
    groupEnds queries (joinedQueries outer laid) = groupEnds true laid := by
  have info (n : Node) : (joinQuery outer n).info = n.info := by
    unfold joinQuery
    split <;> rfl
  have kind (n : Node) : (joinQuery outer n).kind = n.kind := by
    unfold joinQuery
    split <;> rfl
  have all : (joinedQueries outer laid).filter (fun n => considers queries n.kind) =
      joinedQueries outer laid := by
    refine List.filter_eq_self.2 fun n hn => ?_
    obtain ⟨m, hm, rfl⟩ := List.mem_map.1 hn
    rw [considers, kind, (List.mem_filter.1 hm).2, Bool.or_true]
  rw [groupEnds, all, joinedQueries, List.map_map]
  exact List.map_congr_left fun n _ => congrArg Info.groupEnd (info n)

/-- **A block with content within bounds leaves nodes within bounds.** -/
theorem allows_finish (proper : around.proper) (outside : around.unended)
    (unended : info.groupEnd = false) (block : head.isBlock)
    (h : ∀ queries, (breaksAll groups (around.content info head).inRule queries cs).Allows
      (groupEnds queries laid)) :
    ((Node.plain info head cs).breaks groups around.inRule queries).Allows
      (groupEnds queries (finish around info head laid).left) := by
  have inside : around.inside.inRule = around.inRule := by cases around <;> rfl
  cases head with
  | rule =>
    rw [finish, finishRule, left_before]
    exact allows_markLast (allows_nodes rfl unended ((h queries).sublist (groupEnds_filter _)))
  | media query resolved =>
    rw [finish, finishMedia, left_before]
    refine allows_markLast (allows_nodes rfl unended ?_)
    rw [groupEnds_joinedQueries]
    have content := h true
    rw [Around.content, inside] at content
    have rises := allows_risen proper outside content
    -- the rule that is repeated is no query
    have same : held groups around.inRule true cs = breaksAll groups around.inRule true cs := by
      cases around <;> rfl
    rwa [same] at rises
  | supports condition resolved =>
    rw [finish, finishSupports, left_before]
    have none' : Breaks.absent.Allows (groupEnds queries []) := rfl
    have alone : (ofKind queries .supports ++ Breaks.absent).Allows (groupEnds queries
        (Laid.nodes (.plain info (.supports condition resolved) (risen around laid)) [])) :=
      allows_nodes rfl unended none'
    rw [Breaks.append_absent] at alone
    exact allows_markLast alone
  | directive => exact allows_singleton unended
  | _ => cases block

/-! ### Laying out -/

/-- What a group that has come to its end is. -/
def BoundedGroup (groups : GroupId → Bool → Breaks) (g : GroupId) (n : Node) : Prop :=
  Bounded (groups g) n.children

/-- The content of groups that have come to their end, copied. -/
theorem bounded_flushed {done : List GroupId} {s : State}
    (ended : s.Ended (BoundedGroup groups) done) {captured : List GroupId}
    (before : captured ⊆ done) :
    Bounded (fun queries => captured.foldr (fun g b => groups g queries ++ b) .absent)
      (flushed s.groups captured) := by
  induction captured with
  | nil => exact ⟨rfl, fun _ => rfl⟩
  | cons g captured ih =>
    obtain ⟨n, found, bounded⟩ := ended g (before List.mem_cons_self)
    rw [flushed_cons found bounded.laidOut]
    exact bounded.append (ih fun g' hg' => before (List.mem_cons_of_mem g hg'))

/-- What is directly around the content of a node is a rule if the node is one. -/
theorem inRule_content (around : Around) (info : Info) (head : Head) :
    (around.content info head).inRule =
      match head with
      | .rule .. => true
      | .media .. | .supports .. | .buffer _ => around.inRule
      | _ => false := by
  cases head with
  | media | supports | buffer => cases around <;> rfl
  | _ => rfl

/-- There are selectors around exactly what is in a rule. -/
theorem isSome_selector (proper : around.proper) : around.selector.isSome = around.inRule := by
  cases around with
  | rule _ head =>
    cases head with
    | rule => exact proper
    | _ => cases proper
  | _ => rfl

/-- That the pass keeps within the bounds of a tree. -/
def boundedAccount (groups : GroupId → Bool → Breaks) : Account where
  given around n := around.unended ∧ n.Unended ∧ Explains groups (n.bodies around.selector)
  leaves around n := Bounded fun queries => n.breaks groups around.inRule queries
  kept := BoundedGroup groups

/-- What each of some nodes leaves is within its bounds. -/
theorem bounded_flatMap {parts : List Laid}
    (h : (boundedAccount groups).leavesEach around ns parts) :
    Bounded (fun queries => breaksAll groups around.inRule queries ns)
      (parts.flatMap Laid.left) := by
  induction h with
  | nil => exact ⟨rfl, fun _ => rfl⟩
  | cons first _ ih => exact first.append ih

/-- What is in a node that ends no group ends none either. -/
theorem unended_content (outside : around.unended) (here : info.groupEnd = false) :
    (around.content info head).unended := by
  cases head with
  | rule => exact here
  | media | supports | buffer =>
    cases around with
    | rule => exact outside
    | _ => trivial
  | _ => trivial

/-- The end of a group with content within bounds. -/
theorem boundedGroup_risen (proper : around.proper) (outside : around.unended)
    {name : BufferName} {g : GroupId} (group : info.group = some g)
    (explained : Explains groups (Node.bodies around.selector (.plain info (.buffer name) cs)))
    (h : Bounded (fun queries => breaksAll groups around.inRule queries cs) laid) :
    BoundedGroup groups g (.plain info (.buffer name) (risen around laid)) := by
  refine ⟨(risen_spec proper h.laidOut).1, fun queries => ?_⟩
  rcases explained _ (body_mem_bodies group) queries with free | told
  · rw [show groups g queries = .anywhere from free]
    trivial
  · rw [show groups g queries = held groups around.selector.isSome queries cs from told,
      isSome_selector proper]
    exact allows_risen proper outside (h.allows queries)

/-- **Each way in which a node is laid out keeps within the bounds of the node.** -/
theorem boundedAccount_sound (groups : GroupId → Bool → Breaks) :
    (boundedAccount groups).Sound where
  laidOut h := h.laidOut
  inside := by
    rintro around info head cs ⟨outside, unended, explained⟩ c hc
    obtain ⟨here, inner⟩ := unended_plain.1 unended
    exact ⟨unended_content outside here, inner c hc, fun b hb =>
      explained b (bodies_content_subset around info head hc hb)⟩
  stay := by
    intro around info head given group _ final alone
    refine ⟨laidOutAll_leaf group final, ?_⟩
    have here := (unended_plain.1 given.2.1).1
    cases head with
    | declaration | comment | importSheet => exact fun _ => allows_singleton here
    | rule | media | supports | directive => cases alone
    | _ => cases final
  extend := ⟨rfl, fun _ => rfl⟩
  flush ended before := (bounded_flushed ended before).markLast
  block proper given group settled block inner := by
    have h := bounded_flatMap inner
    have final := Head.final_of_settled settled block
    exact ⟨(leaves_finish proper group final block h.laidOut).laidOut, fun _ =>
      allows_finish proper given.1 (unended_plain.1 given.2.1).1 block h.allows⟩
  buffer := ⟨rfl, fun _ => rfl⟩
  group := by
    intro around info name g cs parts proper given group inner
    have h := bounded_flatMap inner
    rw [inRule_content] at h
    exact boundedGroup_risen proper given.1 group given.2.2 h

/-- **What the pass leaves of each of some nodes of an evaluated tree is within its bounds.** -/
theorem bounded_layEach {done : List GroupId} {around : Around} (proper : around.proper)
    (outside : around.unended) (ns : List Node) (settled : settledAll true ns)
    (unended : ∀ n ∈ ns, n.Unended) (ordered : BufferStep.Ordered done (stepsAll ns))
    (explained : Explains groups (bodiesAll around.selector ns)) :
    Reaches (BoundedGroup groups) done (ns.mapM (layNode around)) (closed (stepsAll ns))
      (List.Forall₂ (fun n part =>
        Bounded (fun queries => n.breaks groups around.inRule queries) part.left) ns) :=
  (boundedAccount_sound groups).reaches_layEach proper ns settled
    (fun n hn => ⟨outside, unended n hn, fun b hb => explained b (bodies_subset_bodiesAll hn hb)⟩)
    ordered

end Layout
end Stylesheet
