/-
# The meaning of joined queries

A list of queries holds if one of its members does, and a query holds if all of its parts
do, whatever the parts stand for (`Query.holds`).  Two queries that are joined hold if both
do, unless one of them is a list with a comma in it, to whose last or first member alone the
other is joined (`Query.holds_joinQueries`).

So a declaration that has been laid out stands under a query that holds if all queries do
that were around it, also if it has been flushed, unless queries that were directly inside
each other are lists (`Document.queries_hold_layOut`).
-/

import Stylesheet.Proofs.Layout.Conservation
import Stylesheet.Proofs.Layout.Normal
import Mathlib.Data.List.Chain

namespace Stylesheet

namespace Query

/-- The parts of a query, which have ` and ` between them. -/
def parts : List Char → List (List Char)
  | [] => [[]]
  | ' ' :: 'a' :: 'n' :: 'd' :: ' ' :: cs => [] :: parts cs
  | c :: cs => (parts cs).modifyHead (c :: ·)

/-- Whether a list of queries holds if the parts hold that `holding` says. -/
def holds (holding : String → Bool) (text : String) : Bool :=
  (text.toList.splitOn ',').any fun query => (parts query).all fun part =>
    holding (.ofList part)

/-- Whether a text is one query and not a list. -/
def IsSingle (text : String) : Prop :=
  ',' ∉ text.toList

/-- Whether a part of a query may come after a text and ` and `. -/
def IsClosed (text : String) : Prop :=
  ¬[' ', 'a', 'n', 'd'] <:+ text.toList

instance decidableIsSingle (text : String) : Decidable (IsSingle text) :=
  inferInstanceAs (Decidable (',' ∉ text.toList))

instance decidableIsClosed (text : String) : Decidable (IsClosed text) :=
  inferInstanceAs (Decidable (¬[' ', 'a', 'n', 'd'] <:+ text.toList))

/-- A query has a part. -/
theorem parts_ne_nil (cs : List Char) : parts cs ≠ [] := by
  fun_induction parts cs with
  | case1 => exact List.cons_ne_nil _ _
  | case2 cs ih => exact List.cons_ne_nil _ _
  | case3 c cs other ih => simpa using ih

/-- The parts of two queries with ` and ` between them. -/
theorem parts_append {cs : List Char} (closed : ¬[' ', 'a', 'n', 'd'] <:+ cs) (ds : List Char) :
    parts (cs ++ ' ' :: 'a' :: 'n' :: 'd' :: ' ' :: ds) = parts cs ++ parts ds := by
  fun_induction parts cs with
  | case1 => rw [List.nil_append, parts]; rfl
  | case2 cs ih =>
    have rest := ih fun tail => closed (tail.trans (List.suffix_append [' ', 'a', 'n', 'd', ' '] cs))
    simp only [List.cons_append, parts, rest]
  | case3 c cs other ih =>
    have rest := ih fun tail => closed (tail.trans (List.suffix_cons c cs))
    -- the first ` and ` of the whole does not begin in `cs` and end after it
    have straddles (e : List Char) :
        c :: (cs ++ ' ' :: 'a' :: 'n' :: 'd' :: ' ' :: ds) ≠ ' ' :: 'a' :: 'n' :: 'd' :: ' ' :: e := by
      intro h
      match cs with
      | [] => simp at h
      | [_] => simp at h
      | [_, _] => simp at h
      | [_, _, _] =>
        simp only [List.cons_append, List.nil_append, List.cons.injEq] at h
        obtain ⟨rfl, rfl, rfl, rfl, -⟩ := h
        exact closed (List.suffix_refl _)
      | _ :: _ :: _ :: _ :: more =>
        simp only [List.cons_append, List.cons.injEq] at h
        obtain ⟨rfl, rfl, rfl, rfl, rfl, -⟩ := h
        exact other _ rfl rfl
    rw [List.cons_append, parts, rest]
    · obtain ⟨p, ps, e⟩ := List.exists_cons_of_ne_nil (parts_ne_nil cs)
      rw [e]
      rfl
    · exact fun e h h' => straddles e (by rw [h, h'])

/-- **Two queries that are joined hold if both do**, if neither is a list. -/
theorem holds_joinQueries {holding : String → Bool} {outer inner : Option String}
    (single : IsSingle (outer.getD "None")) (closed : IsClosed (outer.getD "None"))
    (single' : IsSingle (inner.getD "None")) :
    holds holding ((Layout.joinQueries outer inner).getD "None") =
      (holds holding (outer.getD "None") && holds holding (inner.getD "None")) := by
  have alone {text : String} (single : IsSingle text) :
      holds holding text = (parts text.toList).all fun part => holding (.ofList part) := by
    rw [holds, List.splitOn_eq_singleton single]
    simp
  have whole : ((Layout.joinQueries outer inner).getD "None").toList =
      (outer.getD "None").toList ++ ' ' :: 'a' :: 'n' :: 'd' :: ' ' ::
        (inner.getD "None").toList := by
    simp [Layout.joinQueries]
  have joint : IsSingle ((Layout.joinQueries outer inner).getD "None") := by
    rw [IsSingle, whole]
    simpa [IsSingle] using ⟨single, single'⟩
  rw [alone joint, alone single, alone single', whole, parts_append closed, List.all_append]

end Query

namespace AtRule

/-- Whether an at-rule lets through what the parts of queries say; one that is not a query
does. -/
def holds (holding : String → Bool) : AtRule → Bool
  | media query => Query.holds holding (query.getD "None")
  | _ => true

/-- Whether two at-rules, one directly inside the other, are not both queries, or neither is
a list. -/
def Merges : AtRule → AtRule → Prop
  | media outer, media inner =>
    Query.IsSingle (outer.getD "None") ∧ Query.IsClosed (outer.getD "None") ∧
      Query.IsSingle (inner.getD "None")
  | _, _ => True

instance decidableMerges (outer inner : AtRule) : Decidable (Merges outer inner) :=
  match outer, inner with
  | media _, media _ => inferInstanceAs (Decidable (_ ∧ _ ∧ _))
  | media _, supports _ | media _, directive _ | supports _, _ | directive _, _ =>
    inferInstanceAs (Decidable True)

variable {rules : List AtRule} {holding : String → Bool}

/-- The first of some at-rules with their queries joined is a list only if the first of them
is. -/
theorem single_of_joined (merges : rules.IsChain Merges) {query : Option String}
    {inside : List AtRule} (h : joined rules = media query :: inside) :
    ∃ first others, rules = media first :: others ∧
      (Query.IsSingle (first.getD "None") → Query.IsSingle (query.getD "None")) := by
  induction rules generalizing query inside with
  | nil => cases h
  | cons rule rules ih =>
    obtain ⟨here, others⟩ := List.isChain_cons.1 merges
    change cons rule (joined rules) = _ at h
    cases rule with
    | media outer =>
      refine ⟨outer, rules, rfl, fun single => ?_⟩
      cases e : joined rules with
      | nil =>
        rw [e] at h
        cases h
        exact single
      | cons next more =>
        rw [e] at h
        cases next with
        | media inner =>
          obtain ⟨first, _, rfl, kept⟩ := ih others e
          cases h
          have single' := kept (here _ rfl).2.2
          simp only [Layout.joinQueries, Option.getD_some, Query.IsSingle, String.toList_append,
            List.mem_append, not_or]
          exact ⟨⟨single, by decide⟩, single'⟩
        | supports | directive =>
          cases h
          exact single
    | supports | directive => cases h

/-- **At-rules with their queries joined let through what they all do**, if no lists are
joined. -/
theorem holds_joined (merges : rules.IsChain Merges) :
    (joined rules).all (holds holding) = rules.all (holds holding) := by
  induction rules with
  | nil => rfl
  | cons rule rules ih =>
    obtain ⟨here, others⟩ := List.isChain_cons.1 merges
    rw [List.all_cons, ← ih others]
    change (cons rule (joined rules)).all _ = _
    cases rule with
    | media outer =>
      cases e : joined rules with
      | nil => rfl
      | cons next more =>
        cases next with
        | media inner =>
          obtain ⟨first, _, rfl, kept⟩ := single_of_joined others e
          obtain ⟨single, closed, single'⟩ := here _ rfl
          have both := @Query.holds_joinQueries holding _ _ single closed (kept single')
          simp only [cons, List.all_cons, holds, both, Bool.and_assoc]
        | supports | directive => rfl
    | supports | directive => rfl

end AtRule

namespace Placed

/-- Whether all queries around something hold. -/
def holds (holding : String → Bool) (p : Placed) : Bool :=
  p.rules.all (AtRule.holds holding)

/-- Whether no queries around something that are directly inside each other are lists. -/
def Merges (p : Placed) : Prop :=
  p.rules.IsChain AtRule.Merges

instance decidablePlacedMerges (p : Placed) : Decidable p.Merges :=
  inferInstanceAs (Decidable (p.rules.IsChain AtRule.Merges))

/-- What the same is under other queries, which hold if the queries of `p` do, unless these
are lists inside each other. -/
structure Keeps (q p : Placed) : Prop where
  selector : q.selector = p.selector
  leaf : q.leaf = p.leaf
  holds : p.Merges → ∀ holding, q.holds holding = p.holds holding

/-- Joining queries keeps what is inside them, if no list is joined. -/
theorem keeps_joined (p : Placed) : p.joined.Keeps p where
  selector := rfl
  leaf := rfl
  holds merges _ := AtRule.holds_joined merges

end Placed

namespace Layout

open Node

/-- In what is laid out no queries are left that could be joined: what a node places begins
with a query only if the node is one. -/
theorem joined_of_placed {content : Contents} {selector : Option (List String)} {n : Node}
    (out : n.laidOut) (normal : n.normal) {p : Placed} (mem : p ∈ n.placed content selector) :
    p.joined = p ∧ (n.kind ≠ .media → ∀ query rules, p.rules ≠ .media query :: rules) := by
  match n with
  | .plain i head cs =>
    obtain ⟨-, final, block, outAll⟩ := laidOut_plain.1 out
    obtain ⟨-, -, holds, normalAll⟩ := normal_plain.1 normal
    have inside {selector : Option (List String)} {p : Placed}
        (mem : p ∈ placedAll content selector cs) : p.joined = p ∧
          ∃ c ∈ cs, c.kind ≠ .media → ∀ query rules, p.rules ≠ .media query :: rules := by
      obtain ⟨c, hc, mem⟩ := mem_placedAll.1 mem
      obtain ⟨same, first⟩ := joined_of_placed (laidOutAll_iff.1 outAll c hc) (normalAll c hc) mem
      exact ⟨same, c, hc, first⟩
    cases head with
    | declaration | comment =>
      cases List.mem_singleton.1 mem
      exact ⟨rfl, fun _ _ _ => (List.cons_ne_nil _ _).symm⟩
    | importSheet uri =>
      cases block.resolve_left Bool.false_ne_true
      cases mem
    | rule =>
      obtain ⟨q, hq, rfl⟩ := List.mem_map.1 mem
      obtain ⟨same, c, hc, first⟩ := inside hq
      refine ⟨same, fun _ => first fun e => ?_⟩
      have kept := holds c hc
      rw [e] at kept
      cases kept
    | media query resolved =>
      obtain ⟨q, hq, rfl⟩ := List.mem_map.1 mem
      obtain ⟨same, c, hc, first⟩ := inside hq
      have other : c.kind ≠ .media := fun e => by
        have kept := holds c hc
        rw [e] at kept
        cases kept
      refine ⟨?_, fun e => absurd rfl e⟩
      rw [Placed.joined_within, same]
      have start := first other
      obtain ⟨rules, selector, leaf⟩ := q
      cases rules with
      | nil => rfl
      | cons rule rules =>
        cases rule with
        | media inner => exact absurd rfl (start inner rules)
        | supports | directive => rfl
    | supports | directive =>
      obtain ⟨q, hq, rfl⟩ := List.mem_map.1 mem
      obtain ⟨same, -⟩ := inside hq
      refine ⟨?_, fun _ _ _ => by simp [Placed.within, Head.atRules]⟩
      rw [Placed.joined_within, same]
      rfl
    | _ => cases final
  | .cond .. => cases out

/-- What a laid-out document places is under the queries that are left. -/
theorem placed_eq_placements {info : Info} {left : List Node} (flat : FlatAll true left) :
    let sheet : Node := .plain info .root left
    sheet.placed sheet.contents none = sheet.placements := by
  intro sheet
  refine ((List.map_congr_left fun p hp => ?_).trans (List.map_id _)).symm
  obtain ⟨q, hq, rfl⟩ := List.mem_map.1 hp
  obtain ⟨n, hn, mem⟩ := mem_placedAll.1 hq
  exact (joined_of_placed (flat n hn).laidOut (flat n hn).normal mem).1

end Layout

/-- **What is laid out stands under queries that mean the same.**  Take a document that has
not been evaluated, with nothing inside nodes that have no body, whose nesting is right, and
what an evaluation makes of it.  That is one tree; and if the tree can be laid out, it becomes
one tree, in which the declarations and comments are, one for one, those of the tree.  The
queries around each of them hold if all of those hold that were around it before, also around
the flush that it comes from, whatever the parts of the queries stand for, unless two of these
were directly inside each other and were lists. -/
theorem Document.queries_hold_layOut (depth : Nat) (options : Options) {info : Info}
    {cs : List Node} {log log' : Log} {evaluated : Captured (List Node)}
    (fresh : Node.freshAll true cs) (nesting : Nesting.check (.plain info .root cs) = .ok ())
    (run : Document.evaluateTo depth options { content := .plain info .root cs } log =
      (.ok evaluated, log')) :
    ∃ root, evaluated.content = [root] ∧
      ∀ (notes notes' : Log) (laid : Captured (List Node)),
        Document.layOut { content := root, groups := evaluated.groups } notes =
          (.ok laid, notes') →
        ∃ sheet, laid.content = [sheet] ∧
          ∃ places : List Placed, places.Perm (sheet.placed sheet.contents none) ∧
            List.Forall₂ Placed.Keeps places (root.placed root.contents none) := by
  obtain ⟨w, run, groups⟩ := Document.run_of_evaluateTo run
  obtain ⟨children, content, settled, ordered, bound, pass⟩ :=
    Document.flat_of_run depth options log fresh nesting run
  refine ⟨_, content, fun notes notes' laid layout => ?_⟩
  obtain ⟨left, outcome, one⟩ := Document.layAll_of_layOut layout
  -- the pass keeps where everything stands
  have walk : BufferStep.Ordered [] (Node.plain info.apart .root children).steps := by
    rw [Node.steps_plain]
    simpa [Tag.step?] using ordered
  have filled : Layout.Filled (Node.plain info.apart .root children).contents
      (Node.bodiesAll none children) :=
    fun b hb => Node.contents_eq walk (List.mem_append_left _ hb)
  have conserves := Layout.conserves_layAll rfl children settled ordered filled _ left
    (fun g hg => nomatch hg) (groups ▸ bound) outcome
  have perm : (Node.plain info.apart .root left).placements.Perm
      (Node.plain info.apart .root children).placements :=
    Layout.placements_perm rfl conserves.2.2
  -- and it leaves no query directly inside another
  have flat := pass notes left (groups ▸ outcome)
  refine ⟨_, one, _, (Layout.placed_eq_placements flat ▸ perm.symm), ?_⟩
  exact List.forall₂_map_left_iff.2 (List.forall₂_same.2 fun p _ => p.keeps_joined)

/-- A query inside a rule in a query, and one in a buffer that is flushed inside a query. -/
theorem Document.queries_hold_layOut_flush :
    let declaration : Node :=
      .plain {} (.declaration [.text "x"] (some (.literal (.word "y"))) none none) []
    let name : BufferName := { written := [.text "k"] }
    let cs : List Node :=
      [.plain {} (.buffer name) [.plain {} (.media [.text "b"] none) [declaration]],
      .plain {} (.media [.text "a"] none)
        [.plain {} (.rule [.text "r"] none)
          [.plain {} (.media [.text "c and d"] none) [declaration]],
        .plain {} (.flush name []) []]]
    ∃ evaluated log root laid notes sheet,
      Document.evaluateTo 9 {} { content := .plain {} .root cs } #[] = (.ok evaluated, log) ∧
      evaluated.content = [root] ∧
      ((root.placed root.contents none).map (·.rules) =
          [[.media (some "a"), .media (some "c and d")], [.media (some "a"), .media (some "b")]] ∧
        ∀ p ∈ root.placed root.contents none, p.Merges) ∧
      Document.layOut { content := root, groups := evaluated.groups } #[] = (.ok laid, notes) ∧
      laid.content = [sheet] ∧
      ∃ places : List Placed, places.Perm (sheet.placed sheet.contents none) ∧
        List.Forall₂ Placed.Keeps places (root.placed root.contents none) := by
  intro declaration name cs
  have evaluates : (Document.evaluateTo 9 {} { content := .plain {} .root cs } #[]).1.toOption.any
      fun evaluated => evaluated.content.all fun root =>
        decide ((root.placed root.contents none).map (·.rules) =
            [[.media (some "a"), .media (some "c and d")],
              [.media (some "a"), .media (some "b")]] ∧
          ∀ p ∈ root.placed root.contents none, p.Merges) &&
        (Document.layOut { content := root, groups := evaluated.groups } #[]).1.isOk := by
    decide +kernel
  rcases run : Document.evaluateTo 9 {} { content := .plain {} .root cs } #[] with ⟨outcome, log⟩
  rw [run] at evaluates
  cases outcome with
  | error e => simp [Except.toOption] at evaluates
  | ok evaluated =>
    obtain ⟨root, content, keeps⟩ := queries_hold_layOut 9 {} (by decide) (by rfl) run
    simp only [Except.toOption, Option.any_some, content, List.all_cons, List.all_nil,
      Bool.and_true, Bool.and_eq_true, decide_eq_true_eq] at evaluates
    obtain ⟨nests, lays⟩ := evaluates
    rcases layout : Document.layOut { content := root, groups := evaluated.groups } #[] with
      ⟨outcome, notes⟩
    rw [layout] at lays
    cases outcome with
    | error e => cases lays
    | ok laid =>
      obtain ⟨sheet, one, places⟩ := keeps #[] notes laid layout
      exact ⟨evaluated, log, root, laid, notes, sheet, rfl, content, nests, layout, one, places⟩

/-- A query inside a list of two: it is joined to the second of them alone, so that what was
under both is there as soon as the first holds. -/
theorem Document.query_in_list :
    let declaration : Node :=
      .plain {} (.declaration [.text "y"] (some (.literal (.word "z"))) none none) []
    let tree : Node := .plain {} .root [.plain {} (.media [.text "a, b"] none)
      [.plain {} (.media [.text "c"] none) [.plain {} (.rule [.text "x"] none) [declaration]]]]
    let holding : String → Bool := fun part => part = "a"
    ∃ evaluated root sheet,
      (Document.evaluateTo 9 {} { content := tree } #[]).1 = .ok evaluated ∧
      evaluated.content = [root] ∧ (Document.flatTo 9 {} tree #[]).1 = .ok [sheet] ∧
      (root.placed root.contents none).map (Placed.holds holding) = [false] ∧
      (sheet.placed sheet.contents none).map (Placed.holds holding) = [true] := by
  intro declaration tree holding
  have before : (Document.evaluateTo 9 {} { content := tree } #[]).1.toOption.map (fun evaluated =>
      evaluated.content.map fun root =>
        (root.placed root.contents none).map (Placed.holds holding)) = some [[false]] := by
    decide +kernel
  have after : (Document.flatTo 9 {} tree #[]).1.toOption.map (fun nodes =>
      nodes.map fun sheet => (sheet.placed sheet.contents none).map (Placed.holds holding)) =
        some [[true]] := by
    decide +kernel
  cases e : (Document.evaluateTo 9 {} { content := tree } #[]).1 with
  | error f => simp [e, Except.toOption] at before
  | ok evaluated =>
    cases e' : (Document.flatTo 9 {} tree #[]).1 with
    | error f => simp [e', Except.toOption] at after
    | ok nodes =>
      rw [e] at before
      rw [e'] at after
      obtain ⟨root, content, none⟩ := List.map_eq_singleton_iff.1 (Option.some.inj before)
      obtain ⟨sheet, rfl, one⟩ := List.map_eq_singleton_iff.1 (Option.some.inj after)
      exact ⟨evaluated, root, sheet, rfl, content, rfl, none, one⟩

end Stylesheet
