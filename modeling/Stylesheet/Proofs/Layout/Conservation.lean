/-
# Layout keeps every declaration where it stands

As the pass goes through a tree, the groups that it has come to the end of are laid out,
and place what `Node.contents` says of them (`Layout.State.Holds`).  A step of the pass
that keeps this and leaves laid-out nodes which place the same as the nodes they are left
by is what `Layout.Conserves` is about; `Layout.conserves_layAll` shows it of the nodes of
an evaluated tree, from an account of single nodes (`Layout.conservation_sound`).

So the declarations and comments of the tree that the pass leaves stand where those of the
tree it was given do (`Document.placements_layOut`).
-/

import Stylesheet.Proofs.BufferOrder
import Stylesheet.Proofs.Layout.Account
import Stylesheet.Proofs.Layout.Contents
import Stylesheet.Proofs.Stages

namespace Stylesheet
namespace Layout

open Node
open BufferStep (closed)

/-- The groups that have come to their end are laid out and place what they hold. -/
def State.Holds (content : Contents) (done : List GroupId) (s : State) : Prop :=
  ∀ g ∈ done, ∃ n, s.groups[g]? = some n ∧ laidOutAll n.children ∧
    Placed.Alike (placedAll .empty none n.children) (content g)

/-- A step of the pass that comes to the end of some groups, and ends with an outcome as
it should be. -/
def Conserves {α : Type} (content : Contents) (done : List GroupId) (x : Lay α)
    (ends : List GroupId) (fits : α → Prop) : Prop :=
  ∀ s a, s.Holds content done → (∀ g ∈ ends, g < s.groups.size) → x.outcome s = .ok a →
    (x.after s).Holds content (done ++ ends) ∧ (x.after s).groups.size = s.groups.size ∧ fits a

/-- Nodes left inside a rule that are laid out and will place what `l` says. -/
structure LeavesIn (selector : Option (List String)) (left : List Node) (l : List Placed) :
    Prop where
  laidOut : laidOutAll left
  places : Placed.Alike (stands selector left) l

variable {content : Contents} {done : List GroupId} {α β : Type}

namespace LeavesIn

variable {selector : Option (List String)} {left left' : List Node} {l l' : List Placed}

/-- No nodes place nothing. -/
theorem nil (selector : Option (List String)) : LeavesIn selector [] [] :=
  ⟨rfl, .refl []⟩

/-- What two lists place in a rule. -/
theorem append (h : LeavesIn selector left l) (k : LeavesIn selector left' l') :
    LeavesIn selector (left ++ left') (l ++ l') where
  laidOut := laidOutAll_append h.laidOut k.laidOut
  places :=
    (Placed.Alike.of_perm (stands_append selector left left')).trans (h.places.append k.places)

/-- Marking the last node leaves what is placed. -/
theorem markLast (around : Around) (h : LeavesIn selector left l) :
    LeavesIn selector (markLast around left) l where
  laidOut := laidOutAll_markLast around h.laidOut
  places := (Placed.Alike.of_perm (stands_markLast around left)).trans h.places

/-- What follows the rule that it is in places what it does outside. -/
theorem of_leaves (h : Leaves left l) : LeavesIn selector left l where
  laidOut := h.laidOut
  places := by
    rw [stands_hoisted h.hoisted]
    exact h.places

end LeavesIn

/-- What a group that has come to its end is. -/
def Held (content : Contents) (g : GroupId) (n : Node) : Prop :=
  laidOutAll n.children ∧ Placed.Alike (placedAll .empty none n.children) (content g)

/-! ### Laying out -/

/-- The content of groups that have come to their end, copied. -/
theorem leavesIn_flushed {s : State} (holds : s.Holds content done)
    (selector : Option (List String)) {captured : List GroupId} (ended : captured ⊆ done) :
    LeavesIn selector (flushed s.groups captured)
      (captured.flatMap fun g => (content g).map (Placed.flushed selector)) := by
  induction captured with
  | nil => exact .nil selector
  | cons g captured ih =>
    obtain ⟨n, found, out, places⟩ := holds g (ended List.mem_cons_self)
    have rest := ih fun g' hg' => ended (List.mem_cons_of_mem g hg')
    have first : LeavesIn selector n.children ((content g).map (Placed.flushed selector)) := by
      refine ⟨out, (Placed.Alike.of_perm (stands_flushed selector out)).trans ?_⟩
      exact places.flushed selector
    rw [flushed_cons found out]
    exact first.append rest

/-- Whether every group of a list holds what its body places. -/
def Filled (content : Contents) (bodies : List Body) : Prop :=
  ∀ b ∈ bodies, content b.group = placedAll content b.selector b.children

section Content

variable {around : Around} {info : Info} {head : Head} {cs laid ns : List Node}

/-- The selectors around the content of a node are its own, or those around it. -/
theorem selector_content (around : Around) (info : Info) (head : Head) :
    (around.content info head).selector = head.selectors around.selector := by
  cases head with
  | media | supports | buffer =>
    cases around with
    | rule _ outer => cases outer <;> rfl
    | _ => rfl
  | _ => rfl

/-- The groups of what is in a node are groups of the node. -/
theorem bodies_content_subset (around : Around) (info : Info) (head : Head) {c : Node}
    (hc : c ∈ cs) :
    c.bodies (around.content info head).selector ⊆
      (Node.plain info head cs).bodies around.selector := by
  rw [selector_content]
  exact List.Subset.trans (bodies_subset_bodiesAll hc) (List.subset_append_left _ _)

/-- The end of a block with laid-out content. -/
theorem leavesIn_block (proper : around.proper) (group : info.group = none) (final : head.final)
    (block : head.isBlock)
    (left : LeavesIn (head.selectors around.selector) laid
      (placedAll content (head.selectors around.selector) cs)) :
    LeavesIn around.selector (finish around info head laid).left
      ((Node.plain info head cs).placed content around.selector) := by
  have leaves := leaves_finish proper group final block left.laidOut
  have placed : (Node.plain info head cs).placed content around.selector =
      (placedAll content (head.selectors around.selector) cs).map
        (Placed.within head.atRules) := by
    cases head with
    | rule | media | supports | directive => rfl
    | _ => cases block
  rw [placed]
  exact .of_leaves ⟨leaves.laidOut, leaves.hoisted, leaves.places.trans (left.places.within _)⟩

/-- The end of a group with laid-out content. -/
theorem held_risen (proper : around.proper) {name : BufferName} {g : GroupId}
    (group : info.group = some g)
    (filled : Filled content (Node.bodies around.selector (.plain info (.buffer name) cs)))
    (left : LeavesIn around.selector laid (placedAll content around.selector cs)) :
    Held content g (.plain info (.buffer name) (risen around laid)) := by
  obtain ⟨risenOut, risenPlaces⟩ := risen_spec proper left.laidOut
  refine ⟨risenOut, risenPlaces.trans ?_⟩
  rw [show content g = placedAll content around.selector cs from
    filled _ (body_mem_bodies group)]
  exact left.places

/-- That the pass conserves what a tree places. -/
def conservation (content : Contents) : Account where
  given around n := Filled content (n.bodies around.selector)
  leaves around n left := LeavesIn around.selector left (n.placed content around.selector)
  kept := Held content

/-- What nodes leave that each leave what they should. -/
theorem leavesIn_flatMap {parts : List Laid}
    (h : (conservation content).leavesEach around ns parts) :
    LeavesIn around.selector (parts.flatMap Laid.left)
      (placedAll content around.selector ns) := by
  induction h with
  | nil => exact .nil _
  | cons first _ ih => exact first.append ih

/-- What is in a node leaves what it should under the selectors of the node. -/
theorem leavesIn_content {parts : List Laid}
    (h : (conservation content).leavesEach (around.content info head) cs parts) :
    LeavesIn (head.selectors around.selector) (parts.flatMap Laid.left)
      (placedAll content (head.selectors around.selector) cs) := by
  rw [← selector_content around info head]
  exact leavesIn_flatMap h

/-- **Each way in which a node is laid out conserves what the node places.** -/
theorem conservation_sound (content : Contents) : (conservation content).Sound where
  laidOut h := h.laidOut
  inside := fun {around info head _} filled _ hc b hb =>
    filled b (bodies_content_subset around info head hc hb)
  stay := by
    intro around info head _ group _ final alone
    refine ⟨laidOutAll_leaf group final, ?_⟩
    cases head with
    | declaration | comment | importSheet => exact .refl _
    | rule | media | supports | directive => cases alone
    | _ => cases final
  extend := .nil _
  flush ended before := (leavesIn_flushed ended _ before).markLast _
  block proper _ group settled block inner :=
    leavesIn_block proper group (Head.final_of_settled settled block) block
      (leavesIn_content inner)
  buffer := .nil _
  group proper filled group inner :=
    held_risen proper group filled (leavesIn_content inner)

/-- **The pass conserves what an evaluated tree places.** -/
theorem conserves_layAll (proper : around.proper) (ns : List Node) (settled : settledAll true ns)
    (ordered : BufferStep.Ordered done (stepsAll ns))
    (filled : Filled content (bodiesAll around.selector ns)) :
    Conserves content done (layAll around ns) (closed (stepsAll ns)) fun left =>
      LeavesIn around.selector left (placedAll content around.selector ns) := by
  have each := (conservation_sound content).reaches_layEach proper ns settled
    (fun n hn b hb => filled b (bodies_subset_bodiesAll hn hb)) ordered
  exact Account.reaches_layAll each fun parts h => leavesIn_flatMap h

end Content

end Layout

namespace Layout

open Node

/-- What has been left of a document places what the document does. -/
theorem placements_perm {info : Info} {children left : List Node} {content : Contents}
    (filled : (Node.plain info .root children).contents = content)
    (h : LeavesIn none left (placedAll content none children)) :
    (Node.plain info .root left).placements.Perm (Node.plain info .root children).placements := by
  have nothing : placedAll (Node.plain info .root left).contents none left =
      placedAll .empty none left := by
    refine placedAll_congr none left ?_
    rw [stepsAll_of_laidOutAll h.laidOut]
    exact fun _ _ mem => nomatch mem
  have whole (c : Contents) (ns : List Node) :
      (Node.plain info .root ns).placed c none = placedAll c none ns :=
    map_within_nil _
  rw [placements, placements, whole, whole, nothing, filled]
  exact (Placed.Alike.of_perm (stands_none left)).symm.trans h.places

end Layout

/-- **Layout keeps every declaration where it stands.**  Take a document that has not been
evaluated, with no other document in it and nothing inside nodes that have no body, whose
nesting is right, and what an evaluation makes of it.  That is one tree; and if the tree can
be laid out, it becomes one tree that places the same declarations and comments, as often,
inside the same at-rules and under the same selectors.  Every document that is read is such a
one (`Document.bare_of_readIn`). -/
theorem Document.placements_layOut (depth : Nat) (options : Options) {info : Info}
    {cs : List Node} {log log' : Log} {evaluated : Captured (List Node)}
    (fresh : Node.freshAll true cs) (nesting : Nesting.check (.plain info .root cs) = .ok ())
    (run : Document.evaluateTo depth options { content := .plain info .root cs } log =
      (.ok evaluated, log')) :
    ∃ root, evaluated.content = [root] ∧
      ∀ (notes notes' : Log) (laid : Captured (List Node)),
        Document.layOut { content := root, groups := evaluated.groups } notes =
          (.ok laid, notes') →
        ∃ sheet, laid.content = [sheet] ∧ sheet.placements.Perm root.placements := by
  obtain ⟨w, run, groups⟩ := Document.run_of_evaluateTo run
  obtain ⟨children, content, sound, produced, settled⟩ :=
    Evaluation.document_of_run true depth options log fresh nesting run
  refine ⟨_, content, fun notes notes' laid layout => ?_⟩
  -- the walk through the tree is the history of the evaluation
  have captures := sound.captures rfl produced
  have ordered := sound.ordered captures.steps
  have filled : Layout.Filled (Node.plain info.apart .root children).contents
      (Node.bodiesAll none children) :=
    fun b hb => Node.contents_eq ordered (List.mem_append_left _ hb)
  -- the pass goes through what is in the document, starting with no group laid out
  obtain ⟨nodes, outcome, left⟩ := Document.layAll_of_layOut layout
  have conserves := Layout.conserves_layAll rfl children settled (Node.ordered_steps ordered).1
    filled _ nodes (fun g hg => nomatch hg) (fun g hg => ?_) outcome
  · exact ⟨_, left, Layout.placements_perm rfl conserves.2.2⟩
  · rw [groups]
    refine sound.lt_size ?_
    rw [captures.steps, Node.closed_steps]
    exact List.mem_append_left _ hg

/-- A buffer inside one query that is flushed inside two others. -/
theorem Document.placements_layOut_queries :
    let name : BufferName := { written := [.text "b"] }
    let tree : Node := .plain {} .root
      [.plain {} (.media [.text "m"] none)
        [.plain {} (.buffer name)
          [.plain {} (.declaration [.text "x"] (some (.literal (.word "y"))) none none) []]],
      .plain {} (.media [.text "n"] none)
        [.plain {} (.media [.text "k"] none) [.plain {} (.flush name []) []]]]
    let placed : Placed :=
      { rules := [.media (some "n and k")], selector := none, leaf := .declaration "x" "y" }
    ∃ evaluated log, Document.evaluateTo 6 {} { content := tree } #[] = (.ok evaluated, log) ∧
      ∃ root, evaluated.content = [root] ∧ root.placements = [placed] ∧
        ∃ laid notes, Document.layOut { content := root, groups := evaluated.groups } log =
            (.ok laid, notes) ∧
          ∃ sheet, laid.content = [sheet] ∧ sheet.placements.Perm [placed] := by
  intro name tree placed
  have evaluates : (match Document.evaluateTo 6 {} { content := tree } #[] with
      | (.ok evaluated, log) => evaluated.content.map fun root =>
        (root.placements,
          (Document.layOut { content := root, groups := evaluated.groups } log).1.isOk)
      | _ => []) = [([placed], true)] := by decide +kernel
  rcases run : Document.evaluateTo 6 {} { content := tree } #[] with ⟨outcome, log⟩
  rw [run] at evaluates
  cases outcome with
  | error e => cases evaluates
  | ok evaluated =>
    obtain ⟨root, content, keeps⟩ := placements_layOut 6 {} (by decide) (by rfl) run
    obtain ⟨places, lays⟩ : root.placements = [placed] ∧
        (Document.layOut { content := root, groups := evaluated.groups } log).1.isOk := by
      simpa [content] using evaluates
    rcases layout : Document.layOut { content := root, groups := evaluated.groups } log with
      ⟨outcome, notes⟩
    rw [layout] at lays
    cases outcome with
    | error e => cases lays
    | ok laid =>
      obtain ⟨sheet, one, perm⟩ := keeps log notes laid layout
      rw [places] at perm
      exact ⟨evaluated, log, rfl, root, content, places, laid, notes, layout, sheet, one, perm⟩

/-- A document whose nesting is right and that can be evaluated and laid out, but not with
every declaration and comment where it stands. -/
def Document.Displaces (tree : Node) : Prop :=
  Nesting.check tree = .ok () ∧
    ∃ evaluated log, Document.evaluateTo 6 {} { content := tree } #[] = (.ok evaluated, log) ∧
      ∃ root, evaluated.content = [root] ∧
        ∃ laid notes, Document.layOut { content := root, groups := evaluated.groups } log =
            (.ok laid, notes) ∧
          ∃ sheet, laid.content = [sheet] ∧ ¬ sheet.placements.Perm root.placements

/-- It can be checked on one document by computing what is placed before and after. -/
theorem Document.displaces_of_placements {tree : Node} (placed placed' : List Placed)
    (nesting : Nesting.check tree = .ok ())
    (computed : (Document.evaluateTo 6 {} { content := tree } #[]).1.toOption.map (fun evaluated =>
      evaluated.content.map fun root => (root.placements,
        (Document.layOut { content := root, groups := evaluated.groups }
            (Document.evaluateTo 6 {} { content := tree } #[]).2).1.toOption.map fun laid =>
          laid.content.map Node.placements)) = some [(placed, some [placed'])])
    (other : ¬ placed'.Perm placed) : Document.Displaces tree := by
  refine ⟨nesting, ?_⟩
  rcases run : Document.evaluateTo 6 {} { content := tree } #[] with ⟨outcome, log⟩
  rw [run] at computed
  cases outcome with
  | error e => cases computed
  | ok evaluated =>
    obtain ⟨root, content, places⟩ := List.map_eq_singleton_iff.1 (Option.some.inj computed)
    rcases layout : Document.layOut { content := root, groups := evaluated.groups } log with
      ⟨outcome, notes⟩
    rw [layout] at places
    obtain ⟨before, after⟩ := Prod.mk.inj places
    cases outcome with
    | error e => cases after
    | ok laid =>
      obtain ⟨sheet, one, left⟩ := List.map_eq_singleton_iff.1 (Option.some.inj after)
      refine ⟨evaluated, log, rfl, root, content, laid, notes, layout, sheet, one, ?_⟩
      rwa [before, left]

/-- What is said of the document is needed.  An `@extend` leaves nothing, so a comment inside
one is lost; and a comment in a second document, inside a buffer, is under no selector where
it is flushed. -/
theorem Document.displaces_bodiless :
    Document.Displaces (.plain {} .root
      [.plain {} (.rule [.text "a"] none)
        [.plain {} (.declaration [.text "x"] (some (.literal (.word "y"))) none none) [],
        .plain {} (.extend [.text "b"] none) [.plain {} (.comment "/* c */" false) []]]]) ∧
    Document.Displaces (.plain {} .root
      [.plain {} (.buffer { written := [.text "n"] })
        [.plain {} .root [.plain {} (.comment "/* c */" false) []]],
      .plain {} (.rule [.text "a"] none)
        [.plain {} (.flush { written := [.text "n"] } []) []]]) := by
  refine ⟨displaces_of_placements
    [⟨[], some ["a"], .declaration "x" "y"⟩, ⟨[], none, .comment "/* c */"⟩]
    [⟨[], some ["a"], .declaration "x" "y"⟩] rfl ?_ ?_,
    displaces_of_placements [⟨[], some ["a"], .comment "/* c */"⟩]
      [⟨[], none, .comment "/* c */"⟩] rfl ?_ ?_⟩
  · decide +kernel
  · exact fun same => absurd same.length_eq (by decide)
  · decide +kernel
  · exact fun same => absurd (List.perm_singleton.1 same) (by decide)

end Stylesheet
