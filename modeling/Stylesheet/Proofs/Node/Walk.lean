/-
# Walking through a tree

`Node.tags` is the way through a tree in document order: it enters a node, goes through
its children, and leaves it.  A node comes before another one and does not contain it
exactly when it has been left before the other is entered.

The walk comes past the ends of groups and past flushes that have captured groups or have
been given a name (`Node.steps`).  A tree that has not been evaluated has no such steps
(`Node.steps_of_fresh`); in one that has been, only nodes that hold what has been
evaluated with them lead to some (`Node.settled`).
-/

import Stylesheet.Proofs.Node.Written

namespace Stylesheet

/-- Entering or leaving a node. -/
inductive Tag where
  /-- The node is entered. -/
  | opens (n : Node)
  /-- The node and all that is in it have been gone through. -/
  | closes (n : Node)

/-- The number of the group that a node is. -/
def Node.number? : Node → Option GroupId
  | plain info (.buffer _) _ => info.group
  | _ => none

/-- The number of the group whose end a tag is. -/
def Tag.closed? : Tag → Option GroupId
  | opens _ => none
  | closes n => n.number?

/-- Whether a step is that of a flush that has been evaluated or of a group. -/
def BufferStep.live : BufferStep → Bool
  | group .. => true
  | flush name captured => name.isSome || !captured.isEmpty

/-- The number of the group that a step is the end of. -/
def BufferStep.closed? : BufferStep → Option GroupId
  | group g _ => some g
  | flush .. => none

/-- The step that a tag is. -/
def Tag.step? : Tag → Option BufferStep
  | closes (.plain info (.buffer name) _) => info.group.map (.group · name.resolved)
  | opens (.plain _ (.flush name captured) _) =>
    Option.guard BufferStep.live (.flush name.resolved captured)
  | _ => none

namespace Node

mutual

/-- The way through a tree. -/
def tags : Node → List Tag
  | plain i h cs => .opens (plain i h cs) :: (tagsAll cs ++ [.closes (plain i h cs)])
  | cond i t cs o =>
    .opens (cond i t cs o) :: (tagsAll cs ++ tagsOption o ++ [.closes (cond i t cs o)])

/-- The way through some trees. -/
def tagsAll : List Node → List Tag
  | [] => []
  | n :: ns => n.tags ++ tagsAll ns

/-- The way through a clause that may be absent. -/
def tagsOption : Option Node → List Tag
  | none => []
  | some n => n.tags

end

@[simp] theorem tagsAll_nil : tagsAll [] = [] := rfl

/-- The walk through a list of one node is the walk through it. -/
theorem tagsAll_singleton (n : Node) : tagsAll [n] = n.tags := by
  rw [tagsAll, tagsAll, List.append_nil]

/-- The walk through two lists, one after the other. -/
theorem tagsAll_append (ns ms : List Node) : tagsAll (ns ++ ms) = tagsAll ns ++ tagsAll ms := by
  induction ns with
  | nil => rfl
  | cons n ns ih => rw [List.cons_append, tagsAll, tagsAll, ih, List.append_assoc]

/-- The ends of groups and the flushes that the walk through a tree comes past. -/
def steps (n : Node) : List BufferStep :=
  n.tags.filterMap Tag.step?

/-- The ends of groups and the flushes that the walk through some trees comes past. -/
def stepsAll (ns : List Node) : List BufferStep :=
  (tagsAll ns).filterMap Tag.step?

@[simp] theorem stepsAll_nil : stepsAll [] = [] := rfl

/-- The steps of the first node come before those of the others. -/
theorem stepsAll_cons (n : Node) (ns : List Node) :
    stepsAll (n :: ns) = n.steps ++ stepsAll ns := by
  rw [stepsAll, tagsAll, List.filterMap_append]
  rfl

/-- The steps of two lists, one after the other. -/
theorem stepsAll_append (ns ms : List Node) :
    stepsAll (ns ++ ms) = stepsAll ns ++ stepsAll ms := by
  rw [stepsAll, tagsAll_append, List.filterMap_append]
  rfl

/-- The steps of a list of one node are those of the node. -/
theorem stepsAll_singleton (n : Node) : stepsAll [n] = n.steps := by
  rw [stepsAll, tagsAll_singleton, steps]

/-- The step of a flush or a group that comes before its content. -/
theorem steps_plain (i : Info) (h : Head) (cs : List Node) :
    (plain i h cs).steps = (Tag.step? (.opens (plain i h cs))).toList ++ stepsAll cs ++
      (Tag.step? (.closes (plain i h cs))).toList := by
  rw [steps, tags, List.filterMap_cons, List.filterMap_append, stepsAll]
  cases Tag.step? (.opens (plain i h cs)) <;>
    cases e : Tag.step? (.closes (plain i h cs)) <;> simp [e]

/-- The steps of an `@if` are those of its children and of its clauses. -/
theorem steps_cond (i : Info) (t : Option Expr) (cs : List Node) (o : Option Node) :
    (cond i t cs o).steps = stepsAll cs ++ (tagsOption o).filterMap Tag.step? := by
  rw [steps, tags, List.filterMap_cons, List.filterMap_append, List.filterMap_append, stepsAll]
  simp [Tag.step?]

/-! ### What has not been evaluated -/

variable {bare : Bool}

mutual

/-- Nothing in a fresh tree is a step. -/
theorem idle_of_fresh {n : Node} (h : n.fresh bare) {t : Tag} (ht : t ∈ n.tags) :
    t.step? = none ∧ t.closed? = none := by
  match n with
  | .plain i head cs =>
    simp only [fresh, Bool.and_eq_true, Option.isNone_iff_eq_none] at h
    obtain ⟨⟨⟨group, unused⟩, -⟩, inner⟩ := h
    rw [tags, List.mem_cons, List.mem_append, List.mem_singleton] at ht
    rcases ht with rfl | ht | rfl
    · cases head with
      | flush name captured =>
        simp only [Head.fresh, Bool.and_eq_true] at unused
        simp [Tag.step?, Tag.closed?, BufferStep.live, Option.isNone_iff_eq_none.1 unused.1,
          List.isEmpty_iff.1 unused.2]
      | _ => exact ⟨rfl, rfl⟩
    · exact idle_of_freshAll inner ht
    · cases head with
      | buffer name => simp [Tag.step?, Tag.closed?, number?, group]
      | _ => exact ⟨rfl, rfl⟩
  | .cond i test cs o =>
    simp only [fresh, Bool.and_eq_true] at h
    obtain ⟨⟨-, inner⟩, clause⟩ := h
    rw [tags, List.mem_cons, List.mem_append, List.mem_append, List.mem_singleton] at ht
    rcases ht with rfl | (ht | ht) | rfl
    · exact ⟨rfl, rfl⟩
    · exact idle_of_freshAll inner ht
    · exact idle_of_freshOption clause ht
    · exact ⟨rfl, rfl⟩

/-- Nothing in fresh nodes is a step. -/
theorem idle_of_freshAll {ns : List Node} (h : freshAll bare ns) {t : Tag} (ht : t ∈ tagsAll ns) :
    t.step? = none ∧ t.closed? = none := by
  match ns with
  | [] => cases ht
  | n :: ns =>
    rw [freshAll, Bool.and_eq_true] at h
    rw [tagsAll, List.mem_append] at ht
    rcases ht with ht | ht
    · exact idle_of_fresh h.1 ht
    · exact idle_of_freshAll h.2 ht

/-- Nothing in a fresh clause is a step. -/
theorem idle_of_freshOption {o : Option Node} (h : freshOption bare o) {t : Tag}
    (ht : t ∈ tagsOption o) : t.step? = none ∧ t.closed? = none := by
  match o with
  | none => cases ht
  | some n => exact idle_of_fresh h ht

end

/-- Fresh nodes have no steps. -/
theorem stepsAll_of_freshAll {ns : List Node} (h : freshAll bare ns) : stepsAll ns = [] :=
  List.filterMap_eq_nil_iff.2 fun _ ht => (idle_of_freshAll h ht).1

/-! ### What has been evaluated -/

end Node

namespace Head

/-- Whether a head is one that an evaluation leaves, with its texts resolved. -/
def settled : Head → Bool
  | root | importSheet _ | buffer _ => true
  | rule _ resolved => resolved.isSome
  | media _ resolved | supports _ resolved | directive _ resolved _ | extend _ resolved =>
    resolved.isSome
  | declaration _ _ name value => name.isSome && value.isSome
  | comment _ silent => !silent
  | flush name _ => name.resolved.isSome
  | _ => false

/-- Whether what is inside a node with this head is evaluated with it. -/
def entered : Head → Bool
  | root | rule .. | media .. | supports .. | buffer _ => true
  | directive _ _ hasBlock => hasBlock
  | _ => false

end Head

namespace Node

section

variable (bare : Bool)

mutual

/-- Whether a tree is one that an evaluation leaves: it holds no statement that stands for
others, and only buffers in it are groups. -/
def settled : Node → Bool
  | plain i h cs =>
    h.settled && (h.kind == .buffer || i.group.isNone) && h.suits bare cs &&
      if h.entered then settledAll cs else freshAll bare cs
  | cond .. => false

/-- Whether some trees are ones that an evaluation leaves. -/
def settledAll : List Node → Bool
  | [] => true
  | n :: ns => n.settled && settledAll ns

end

end

/-- The children of a settled node are settled if it is entered, and fresh otherwise. -/
theorem inner_of_settled {i : Info} {h : Head} {cs : List Node}
    (settled : (plain i h cs).settled bare) :
    if h.entered then settledAll bare cs else freshAll bare cs := by
  rw [Node.settled, Bool.and_eq_true] at settled
  split at settled <;> rename_i e
  · exact if_pos e ▸ settled.2
  · exact if_neg e ▸ settled.2

/-- In a bare tree, what has not been evaluated with its node is not there. -/
theorem settledAll_of_settled {i : Info} {h : Head} {cs : List Node}
    (settled : (plain i h cs).settled true) : settledAll true cs := by
  have inner := inner_of_settled settled
  split at inner
  · exact inner
  · rename_i entered
    simp only [Node.settled, Bool.and_eq_true] at settled
    obtain ⟨⟨⟨final, -⟩, suits⟩, -⟩ := settled
    have body : h.hasBody = false := by
      cases h with
      | directive prelude resolved hasBlock => exact Bool.not_eq_true _ ▸ entered
      | rule | media | supports | buffer => exact (entered rfl).elim
      | _ => first | rfl | cases final
    rw [Head.nil_of_suits suits body]
    rfl

/-- The children of a fresh node are fresh. -/
theorem inner_of_fresh {i : Info} {h : Head} {cs : List Node} (fresh : (plain i h cs).fresh bare) :
    freshAll bare cs := by
  rw [Node.fresh, Bool.and_eq_true] at fresh
  exact fresh.2

/-- Some nodes are settled if each of them is. -/
theorem settledAll_iff {ns : List Node} :
    settledAll bare ns ↔ ∀ n ∈ ns, n.settled bare := by
  induction ns with
  | nil => simp [settledAll]
  | cons n ns ih => simp [settledAll, ih]

/-- Two lists of nodes are settled if each one is. -/
theorem settledAll_append {ns ms : List Node} :
    settledAll bare (ns ++ ms) ↔ settledAll bare ns ∧ settledAll bare ms := by
  simp only [settledAll_iff, List.mem_append, or_imp, forall_and]

/-- Comments come past nothing. -/
theorem stepsAll_of_comments {ns : List Node} (settled : settledAll bare ns)
    (comments : ns.all (·.kind == .comment)) : stepsAll ns = [] := by
  induction ns with
  | nil => rfl
  | cons n ns ih =>
    rw [settledAll, Bool.and_eq_true] at settled
    rw [List.all_cons, Bool.and_eq_true] at comments
    rw [stepsAll_cons, ih settled.2 comments.2, List.append_nil]
    match n with
    | .plain i (.comment text silent) cs =>
      have inner := settled.1
      rw [Node.settled, Bool.and_eq_true] at inner
      rw [steps_plain, stepsAll_of_freshAll inner.2]
      rfl
    | .cond .. => cases settled.1

end Node
end Stylesheet
