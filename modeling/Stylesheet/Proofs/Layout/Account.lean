/-
# What is shown of the pass node by node

What is shown of the nodes that the pass leaves of an evaluated tree is shown in one way: the
groups that have come to their end are as they should be, so that a flush may copy them unseen,
and the end of a node leaves what it should if what is in the node has.  A `Layout.Account`
says what that is: what is known of a node when the pass comes to it, what the node leaves,
and what a group is from its end on.

An account is sound (`Layout.Account.Sound`) if it is right about single nodes, with one field
for each way in which a node is laid out.  It is then right about whole trees
(`Layout.Account.reaches_layNode`, `Layout.Account.reaches_layEach`).
-/

import Stylesheet.Proofs.Layout.Groups
import Stylesheet.Proofs.Node.Order

namespace Stylesheet
namespace Layout

open Node
open BufferStep (closed)

/-- What is to be shown of the pass. -/
structure Account where
  /-- What is known of a node when the pass comes to it. -/
  given : Around → Node → Prop
  /-- What a node leaves. -/
  leaves : Around → Node → List Node → Prop
  /-- What a group that has come to its end is. -/
  kept : GroupId → Node → Prop

namespace Account

/-- What some nodes leave, each for itself. -/
abbrev leavesEach (A : Account) (around : Around) : List Node → List Laid → Prop :=
  List.Forall₂ fun n part => A.leaves around n part.left

/-- Whether an account is right about single nodes. -/
structure Sound (A : Account) : Prop where
  /-- What is left is laid out. -/
  laidOut {around : Around} {n : Node} {left : List Node} (h : A.leaves around n left) :
    laidOutAll left
  /-- What is known of a node tells what has to be known of the nodes in it. -/
  inside {around : Around} {info : Info} {head : Head} {cs : List Node}
    (given : A.given around (.plain info head cs)) :
    ∀ c ∈ cs, A.given (around.content info head) c
  /-- A node that nothing is in stays as it is. -/
  stay {around : Around} {info : Info} {head : Head} (given : A.given around (.plain info head []))
    (group : info.group = none) (settled : head.settled) (final : head.final)
    (alone : head.isBlock = false) :
    A.leaves around (.plain info head []) [.plain info head []]
  /-- Extensions are dropped. -/
  extend {around : Around} {info : Info} {target : Template} {resolved : Option String} :
    A.leaves around (.plain info (.extend target resolved) []) []
  /-- A flush is replaced by copies of groups that have come to their end. -/
  flush {around : Around} {info : Info} {name : BufferName} {captured done : List GroupId}
    {s : State} (ended : s.Ended A.kept done) (before : captured ⊆ done) :
    A.leaves around (.plain info (.flush name captured) [])
      (markLast around (flushed s.groups captured))
  /-- The end of a rule, a query, a condition or another at-rule. -/
  block {around : Around} {info : Info} {head : Head} {cs : List Node} {parts : List Laid}
    (proper : around.proper) (given : A.given around (.plain info head cs))
    (group : info.group = none) (settled : head.settled) (block : head.isBlock)
    (inner : A.leavesEach (around.content info head) cs parts) :
    A.leaves around (.plain info head cs)
      (finish around info head (parts.flatMap Laid.left)).left
  /-- A buffer leaves nothing. -/
  buffer {around : Around} {info : Info} {name : BufferName} {cs : List Node} :
    A.leaves around (.plain info (.buffer name) cs) []
  /-- The end of a group. -/
  group {around : Around} {info : Info} {name : BufferName} {g : GroupId} {cs : List Node}
    {parts : List Laid} (proper : around.proper)
    (given : A.given around (.plain info (.buffer name) cs)) (group : info.group = some g)
    (inner : A.leavesEach (around.content info (.buffer name)) cs parts) :
    A.kept g (.plain info (.buffer name) (risen around (parts.flatMap Laid.left)))

end Account

/-- Nodes are laid out one after the other. -/
theorem layAll_eq_mapM (around : Around) (ns : List Node) :
    layAll around ns = (do
      let parts ← ns.mapM (layNode around)
      return parts.flatMap Laid.left) := by
  induction ns with
  | nil => simp [layAll]
  | cons n ns ih => simp [layAll, ih]

namespace Account

variable {A : Account} {around : Around} {info : Info} {head : Head} {cs ns : List Node}
  {parts : List Laid} {done ends : List GroupId}

/-- Nodes that an account is right about leave laid-out ones, each for itself. -/
theorem Sound.laidOut_each (sound : A.Sound) (h : A.leavesEach around ns parts) :
    laidOutAll (parts.flatMap Laid.left) := by
  induction h with
  | nil => rfl
  | cons first _ ih => exact laidOutAll_append (sound.laidOut first) ih

/-- What is in a node, and then the end of the node. -/
theorem reaches_layAll_bind {fits : Laid → Prop} {ends' : List GroupId} {f : List Node → Lay Laid}
    (each : Reaches A.kept done (ns.mapM (layNode around)) ends (A.leavesEach around ns))
    (last : ∀ parts, A.leavesEach around ns parts →
      Reaches A.kept (done ++ ends) (f (parts.flatMap Laid.left)) ends' fits) :
    Reaches A.kept done (do let laid ← layAll around ns; f laid) (ends ++ ends') fits := by
  rw [layAll_eq_mapM, bind_assoc]
  refine each.bind fun parts inner => ?_
  rw [pure_bind]
  exact last parts inner

/-- A leaf is kept, dropped or replaced. -/
theorem Sound.reaches_layLeaf (sound : A.Sound) (leaf : isLeaf head)
    (given : A.given around (.plain info head [])) (group : info.group = none)
    (settled : head.settled)
    (ordered : BufferStep.Ordered done (Node.plain info head []).steps) :
    Reaches A.kept done (layLeaf around info head []) []
      (A.leaves around (.plain info head [])) := by
  cases head with
  | declaration | comment => exact .pure (sound.stay given group settled rfl rfl)
  | extend => exact .of_inert ((inert_note _).bind (.pure [])) sound.extend
  | flush name captured =>
    exact reaches_layFlush around info name fun s ended =>
      sound.flush ended (captured_subset ordered)
  | _ => cases leaf

/-- The end of a buffer, which leaves nothing and may be the end of a group. -/
theorem Sound.reaches_buffer (sound : A.Sound) (proper : around.proper) {name : BufferName}
    (given : A.given around (.plain info (.buffer name) cs))
    (last : BufferStep.Ordered done (Tag.step? (.closes (.plain info (.buffer name) cs))).toList)
    (inner : A.leavesEach (around.content info (.buffer name)) cs parts) :
    Reaches A.kept done
      (do
        register around info (.buffer name) (parts.flatMap Laid.left)
        settle (finish around info (.buffer name) (parts.flatMap Laid.left)))
      (closed (Tag.step? (.closes (.plain info (.buffer name) cs))).toList)
      fun laid => A.leaves around (.plain info (.buffer name) cs) laid.left := by
  rw [Tag.step?] at last ⊢
  cases group : info.group with
  | none => exact .of_inert (inert_finish proper group (sound.laidOut_each inner)) sound.buffer
  | some g =>
    rw [group] at last
    refine (reaches_finishBuffer group last.1 (sound.group proper given group inner)).mono
      fun laid e => ?_
    rw [e]
    exact sound.buffer

mutual

/-- **A sound account is right about a node of an evaluated tree.** -/
theorem Sound.reaches_layNode (sound : A.Sound) {done : List GroupId} {around : Around}
    (proper : around.proper) (n : Node) (settled : n.settled true) (given : A.given around n)
    (ordered : BufferStep.Ordered done n.steps) :
    Reaches A.kept done (layNode around n) (closed n.steps) fun laid =>
      A.leaves around n laid.left := by
  match n with
  | .plain info head cs =>
    have inner := settledAll_of_settled settled
    obtain ⟨orderedInner, last⟩ := ordered_steps ordered
    simp only [Node.settled, Bool.and_eq_true] at settled
    obtain ⟨⟨⟨own, group⟩, suits⟩, -⟩ := settled
    have each := sound.reaches_layEach (proper_content proper info own) cs inner
      (sound.inside given) orderedInner
    rw [layNode]
    cases head with
    | declaration | comment | extend | flush =>
      have group := Option.isNone_iff_eq_none.1 group
      cases Head.nil_of_suits suits rfl
      rw [closed_steps_of_ne (by simp)]
      refine (sound.reaches_layLeaf rfl given group own ordered).quiet_bind fun left fit => ?_
      exact .of_inert (inert_settle (by exact group)) fit
    | importSheet uri =>
      have group := Option.isNone_iff_eq_none.1 group
      cases Head.nil_of_suits suits rfl
      rw [closed_steps_of_ne (by simp)]
      have empty : Reaches A.kept done (layAll .other []) [] (· = []) := .pure rfl
      refine empty.quiet_bind fun laid e => ?_
      subst e
      exact .of_inert (inert_finish proper group rfl) (sound.stay given group own rfl rfl)
    | rule | media | supports | directive =>
      have group := Option.isNone_iff_eq_none.1 group
      rw [closed_steps_of_ne (by simp), ← List.append_nil (closed (stepsAll cs))]
      refine reaches_layAll_bind each fun parts fit => ?_
      exact .of_inert (inert_finish proper group (sound.laidOut_each fit))
        (sound.block proper given group own rfl fit)
    | buffer name =>
      rw [closed_steps]
      exact reaches_layAll_bind each fun parts fit => sound.reaches_buffer proper given last fit
    | root => cases suits
    | _ => cases own
  | .cond .. => cases settled

/-- A sound account is right about each of some nodes. -/
theorem Sound.reaches_layEach (sound : A.Sound) {done : List GroupId} {around : Around}
    (proper : around.proper) (ns : List Node) (settled : settledAll true ns)
    (given : ∀ n ∈ ns, A.given around n) (ordered : BufferStep.Ordered done (stepsAll ns)) :
    Reaches A.kept done (ns.mapM (layNode around)) (closed (stepsAll ns))
      (A.leavesEach around ns) := by
  match ns with
  | [] => exact .pure .nil
  | n :: ns =>
    rw [settledAll, Bool.and_eq_true] at settled
    rw [stepsAll_cons] at ordered ⊢
    rw [BufferStep.ordered_append] at ordered
    rw [BufferStep.closed_append, List.mapM_cons]
    have first := sound.reaches_layNode proper n settled.1 (given n List.mem_cons_self) ordered.1
    refine first.bind fun part fit => ?_
    have rest := sound.reaches_layEach proper ns settled.2
      (fun m hm => given m (List.mem_cons_of_mem n hm)) ordered.2
    exact rest.bind_quiet fun parts others => .pure (.cons fit others)

end

/-- What is left of some nodes, one after the other, if an account is right about each. -/
theorem reaches_layAll {fits : List Node → Prop}
    (each : Reaches A.kept done (ns.mapM (layNode around)) ends (A.leavesEach around ns))
    (together : ∀ parts, A.leavesEach around ns parts → fits (parts.flatMap Laid.left)) :
    Reaches A.kept done (layAll around ns) ends fits := by
  rw [layAll_eq_mapM]
  exact each.bind_quiet fun parts fit => .pure (together parts fit)

end Account

end Layout
end Stylesheet
