/-
# Where declarations stand

A declaration or a comment of an evaluated tree stands inside at-rules and, perhaps,
under the selectors of a rule.  `Node.placed` lists what is in a tree with both.  What is
inside a buffer stands nowhere by itself: it stands where a flush refers to the group,
with the at-rules of the flush around its own.

`Node.contents` is what the groups of a tree hold, and `Node.placements` what the whole
tree places, with queries that are directly inside each other joined.  Two lists are
`Placed.Alike` if they place the same, in whatever order.
-/

import Stylesheet.Layout
import Mathlib.Logic.Function.Basic

namespace Stylesheet

/-- An at-rule with its text. -/
inductive AtRule where
  /-- `@media query`. -/
  | media (query : Option String)
  /-- `@supports condition`. -/
  | supports (condition : Option String)
  /-- An at-rule without a meaning of its own. -/
  | directive (prelude : Option String)
  deriving DecidableEq

namespace AtRule

/-- An at-rule around others; a query around a query is joined to it. -/
def cons : AtRule → List AtRule → List AtRule
  | media outer, media inner :: rules => media (Layout.joinQueries outer inner) :: rules
  | rule, rules => rule :: rules

/-- At-rules from the outside in, with the queries joined that are next to each other. -/
def joined (rules : List AtRule) : List AtRule :=
  rules.foldr cons []

/-- There is an at-rule around others, joined or not. -/
theorem cons_ne_nil (rule : AtRule) (rules : List AtRule) : cons rule rules ≠ [] := by
  unfold cons
  split <;> exact List.cons_ne_nil _ _

/-- Joining queries leaves an at-rule, if there is one. -/
theorem joined_eq_nil {rules : List AtRule} : joined rules = [] ↔ rules = [] := by
  cases rules with
  | nil => exact Iff.rfl
  | cons rule rules => exact iff_of_false (cons_ne_nil _ _) (List.cons_ne_nil _ _)

/-- Only the outermost of the inner queries may be joined to the outer ones. -/
theorem joined_append (outer inner : List AtRule) :
    joined (outer ++ inner) = outer.foldr cons (joined inner) :=
  List.foldr_append

/-- Three queries come to the same, whichever two are joined first. -/
theorem joinQueries_assoc (a b c : Option String) :
    Layout.joinQueries (Layout.joinQueries a b) c =
      Layout.joinQueries a (Layout.joinQueries b c) := by
  simp [Layout.joinQueries, String.append_assoc]

/-- It does not matter which queries of a run are joined first. -/
theorem cons_media_cons (a b : Option String) (rules : List AtRule) :
    cons (media a) (cons (media b) rules) = cons (media (Layout.joinQueries a b)) rules := by
  match rules with
  | [] => rfl
  | media c :: rules =>
    show media _ :: rules = media _ :: rules
    rw [joinQueries_assoc]
  | supports _ :: _ => rfl
  | directive _ :: _ => rfl

end AtRule

/-- What stands somewhere. -/
inductive Leaf where
  /-- `name: value`. -/
  | declaration (name value : Option String)
  /-- A comment. -/
  | comment (text : String)
  deriving DecidableEq

/-- A declaration or a comment with what is around it. -/
structure Placed where
  /-- The at-rules around it, from the outside in. -/
  rules : List AtRule := []
  /-- The selectors of the rule that it stands in. -/
  selector : Option (List String)
  /-- What it is. -/
  leaf : Leaf
  deriving DecidableEq

namespace Placed

/-- With more at-rules around it. -/
def within (rules : List AtRule) (p : Placed) : Placed :=
  { p with rules := rules ++ p.rules }

/-- Where a flush puts it: under the selector at the flush, unless it has at-rules or a
selector of its own. -/
def flushed (selector : Option (List String)) (p : Placed) : Placed :=
  if p.rules = [] ∧ p.selector = none then { p with selector } else p

/-- With the queries joined that are directly inside each other. -/
def joined (p : Placed) : Placed :=
  { p with rules := AtRule.joined p.rules }

/-- Two lists that place the same. -/
def Alike (l l' : List Placed) : Prop :=
  (l.map joined).Perm (l'.map joined)

/-- At-rules are put around what is joined one by one. -/
theorem joined_within (rules : List AtRule) (p : Placed) :
    (p.within rules).joined = { p with rules := rules.foldr AtRule.cons p.joined.rules } := by
  rw [joined, within, AtRule.joined_append]
  rfl

/-- Joining queries has nothing to do with what is around a flush. -/
theorem joined_flushed (selector : Option (List String)) (p : Placed) :
    (p.flushed selector).joined = p.joined.flushed selector := by
  have same : (p.joined.rules = [] ∧ p.joined.selector = none) ↔
      (p.rules = [] ∧ p.selector = none) :=
    and_congr_left' AtRule.joined_eq_nil
  unfold flushed
  by_cases h : p.rules = [] ∧ p.selector = none
  · rw [if_pos h, if_pos (same.2 h)]
    rfl
  · rw [if_neg h, if_neg (mt same.1 h)]

namespace Alike

variable {l l' m m' : List Placed}

/-- A list places the same as itself. -/
theorem refl (l : List Placed) : Alike l l :=
  List.Perm.refl _

/-- A list places the same in another order. -/
theorem of_perm (h : l.Perm l') : Alike l l' :=
  h.map joined

/-- Two lists place the same, either way. -/
theorem symm (h : Alike l l') : Alike l' l :=
  List.Perm.symm h

/-- What places the same as a second list places the same as a third. -/
theorem trans (h : Alike l l') (k : Alike l' m) : Alike l m :=
  List.Perm.trans h k

/-- Two lists place the same, each with more after it. -/
theorem append (h : Alike l l') (k : Alike m m') : Alike (l ++ m) (l' ++ m') := by
  rw [Alike, List.map_append, List.map_append]
  exact List.Perm.append h k

/-- A change that queries may be joined before or after. -/
theorem map {f g : Placed → Placed} (h : Alike l l') (fg : ∀ p, (f p).joined = g p.joined) :
    Alike (l.map f) (l'.map f) := by
  have shift (k : List Placed) : (k.map f).map joined = (k.map joined).map g := by
    rw [List.map_map, List.map_map]
    exact List.map_congr_left fun p _ => fg p
  rw [Alike, shift, shift]
  exact List.Perm.map g h

/-- The same at-rules around what is placed. -/
theorem within (rules : List AtRule) (h : Alike l l') :
    Alike (l.map (Placed.within rules)) (l'.map (Placed.within rules)) :=
  h.map (g := fun p => { p with rules := rules.foldr AtRule.cons p.rules }) fun p =>
    joined_within rules p

/-- The same selectors for what is flushed. -/
theorem flushed (selector : Option (List String)) (h : Alike l l') :
    Alike (l.map (Placed.flushed selector)) (l'.map (Placed.flushed selector)) :=
  h.map (joined_flushed selector)

/-- A query directly inside a query is the two joined. -/
theorem within_within (outer inner : Option String) (l : List Placed) :
    Alike ((l.map (Placed.within [.media inner])).map (Placed.within [.media outer]))
      (l.map (Placed.within [.media (Layout.joinQueries outer inner)])) := by
  rw [Alike, List.map_map, List.map_map, List.map_map]
  refine List.Perm.of_eq (List.map_congr_left fun p _ => ?_)
  simp only [Function.comp_apply, joined_within, List.foldr_cons, List.foldr_nil,
    AtRule.cons_media_cons]
  rfl

end Alike
end Placed

namespace Head

/-- The at-rules that a node with this head is. -/
def atRules : Head → List AtRule
  | media _ resolved => [.media resolved]
  | supports _ resolved => [.supports resolved]
  | directive _ resolved _ => [.directive resolved]
  | _ => []

/-- The selector inside a node with this head, which itself is under `selector`. -/
def selectors (selector : Option (List String)) : Head → Option (List String)
  | rule _ resolved => resolved
  | media .. | supports .. | buffer _ => selector
  | _ => none

end Head

/-- What the flushes that refer to a group stand for. -/
abbrev Contents := GroupId → List Placed

namespace Node

section

variable (content : Contents)

mutual

/-- What a tree under `selector` places. -/
def placed (selector : Option (List String)) : Node → List Placed
  | plain _ head cs =>
    match head with
    | .declaration _ _ name value => [{ selector, leaf := .declaration name value }]
    | .comment text _ => [{ selector, leaf := .comment text }]
    | .buffer _ => []
    | .flush _ captured => captured.flatMap fun g => (content g).map (Placed.flushed selector)
    | head => (placedAll (head.selectors selector) cs).map (Placed.within head.atRules)
  | cond _ _ cs o => placedAll none cs ++ placedOption none o

/-- What some trees under `selector` place. -/
def placedAll (selector : Option (List String)) : List Node → List Placed
  | [] => []
  | n :: ns => n.placed selector ++ placedAll selector ns

/-- What a clause that may be absent places. -/
def placedOption (selector : Option (List String)) : Option Node → List Placed
  | none => []
  | some n => n.placed selector

end

end

/-- A group with its body and the selector at it. -/
structure Body where
  /-- The number of the group. -/
  group : GroupId
  /-- The selector that the buffer is under. -/
  selector : Option (List String)
  /-- What is inside the buffer. -/
  children : List Node

/-- The group that a node is, if it is one. -/
def Body.ofNode (selector : Option (List String)) (info : Info) (head : Head)
    (children : List Node) : Option Body :=
  match head with
  | .buffer _ => info.group.map fun group => { group, selector, children }
  | _ => none

mutual

/-- The groups in a tree under `selector`, in the order in which they end. -/
def bodies (selector : Option (List String)) : Node → List Body
  | plain info head cs =>
    bodiesAll (head.selectors selector) cs ++ (Body.ofNode selector info head cs).toList
  | cond _ _ cs o => bodiesAll none cs ++ bodiesOption none o

/-- The groups in some trees under `selector`. -/
def bodiesAll (selector : Option (List String)) : List Node → List Body
  | [] => []
  | n :: ns => n.bodies selector ++ bodiesAll selector ns

/-- The groups in a clause that may be absent. -/
def bodiesOption (selector : Option (List String)) : Option Node → List Body
  | none => []
  | some n => n.bodies selector

end

/-- What a group holds, once what the groups before it hold is known. -/
def Body.fill (content : Contents) (b : Body) : Contents :=
  Function.update content b.group (placedAll content b.selector b.children)

/-- What the groups of a tree hold.  A flush refers to groups that have ended before it, so
they are filled in the order in which they end. -/
def contents (root : Node) : Contents :=
  (root.bodies none).foldl Body.fill fun _ => []

/-- **What a tree places**: its declarations and comments, each with the at-rules around it,
queries joined, and the selectors of its rule. -/
def placements (root : Node) : List Placed :=
  (root.placed root.contents none).map Placed.joined

variable {content : Contents} {selector : Option (List String)}

/-- The groups in a node are among those of the list that it is in. -/
theorem bodies_subset_bodiesAll {n : Node} {ns : List Node} (hn : n ∈ ns) :
    n.bodies selector ⊆ bodiesAll selector ns := by
  induction ns with
  | nil => cases hn
  | cons m ns ih =>
    rw [bodiesAll]
    rcases List.mem_cons.1 hn with rfl | hn
    · exact List.subset_append_left _ _
    · exact List.Subset.trans (ih hn) (List.subset_append_right _ _)

/-- A buffer that is a group is among the groups in it. -/
theorem body_mem_bodies {info : Info} {name : BufferName} {g : GroupId} {cs : List Node}
    (group : info.group = some g) :
    (⟨g, selector, cs⟩ : Body) ∈ bodies selector (plain info (.buffer name) cs) := by
  rw [bodies, Body.ofNode, group]
  exact List.mem_append_right _ List.mem_cons_self

/-- What two lists place, one after the other. -/
theorem placedAll_append (ns ms : List Node) :
    placedAll content selector (ns ++ ms) =
      placedAll content selector ns ++ placedAll content selector ms := by
  induction ns with
  | nil => rfl
  | cons n ns ih => rw [List.cons_append, placedAll, placedAll, ih, List.append_assoc]

/-- A list of one node places what the node does. -/
theorem placedAll_singleton (n : Node) :
    placedAll content selector [n] = n.placed content selector := by
  rw [placedAll, placedAll, List.append_nil]

/-- What trees place does not depend on their order. -/
theorem placedAll_perm {ns ms : List Node} (h : ns.Perm ms) :
    (placedAll content selector ns).Perm (placedAll content selector ms) := by
  induction h with
  | nil => exact List.Perm.refl _
  | cons n _ ih => exact ih.append_left _
  | swap n m l =>
    simp only [placedAll, ← List.append_assoc]
    exact List.perm_append_comm.append_right _
  | trans _ _ ih ih' => exact ih.trans ih'

@[simp] theorem placed_withInfo (i : Info) (n : Node) :
    (n.withInfo i).placed content selector = n.placed content selector := by
  cases n <;> rfl

/-- Changing the last node leaves what is placed, if it does so for every node. -/
theorem placedAll_changeLast {f : Node → Node}
    (h : ∀ n : Node, (f n).placed content selector = n.placed content selector)
    (ns : List Node) :
    placedAll content selector (Layout.changeLast f ns) = placedAll content selector ns := by
  induction ns with
  | nil => rfl
  | cons n ns ih =>
    cases ns with
    | nil => rw [Layout.changeLast, placedAll_singleton, placedAll_singleton, h]
    | cons m ns =>
      show n.placed content selector ++
        placedAll content selector (Layout.changeLast f (m :: ns)) = _
      rw [ih]
      rfl

end Node
end Stylesheet
