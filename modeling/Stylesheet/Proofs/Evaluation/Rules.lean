/-
# The selectors of the rules that come out

Every rule that an evaluation leaves has its selectors, and they are complete, whether it is
written where it stands or comes from a mixin, from a loop or from a buffer
(`Document.rules_complete`).  The exception is a rule inside something that an evaluation
takes over as it is (`Head.takenOver`); a document that is read has nothing there.
-/

import Stylesheet.Proofs.Evaluation.Contract
import Stylesheet.Proofs.Grammar.Bare
import Stylesheet.Proofs.Selectors
import Stylesheet.Proofs.Stages

namespace Stylesheet

/-- Whether an evaluation leaves what is inside a node with this head as it is. -/
def Head.takenOver : Head → Bool
  | declaration .. | importSheet _ | extend .. | comment .. | flush .. => true
  | directive _ _ hasBlock => !hasBlock
  | _ => false

/-- What is not gone into is taken over as it is. -/
theorem Head.takenOver_of_resolves {h h' : Head} (resolves : h.Resolves h')
    (leaf : h.entered = false) : h'.takenOver := by
  cases resolves with
  | directive prelude old hasBlock text =>
    cases hasBlock with
    | true => cases leaf
    | false => rfl
  | declaration | importSheet | extend | comment | flush => rfl
  | _ => cases leaf

/-- What is gone into is not taken over as it is. -/
theorem Head.not_takenOver_of_resolves {h h' : Head} (resolves : h.Resolves h')
    (entered : h.entered) : h'.takenOver = false := by
  cases resolves with
  | directive prelude old hasBlock text =>
    cases hasBlock with
    | true => rfl
    | false => cases entered
  | declaration | importSheet | extend | comment | flush => cases entered
  | _ => rfl

namespace Node

mutual

/-- A tree and all that is in it, but for what is inside something taken over. -/
def reached : Node → List Node
  | plain i h cs => plain i h cs :: if h.takenOver then [] else reachedAll cs
  | cond i t cs o => cond i t cs o :: (reachedAll cs ++ reachedOption o)

/-- Some trees and all that is in them, but for what is taken over. -/
def reachedAll : List Node → List Node
  | [] => []
  | n :: ns => n.reached ++ reachedAll ns

/-- A clause that may be absent and all that is in it, but for what is taken over. -/
def reachedOption : Option Node → List Node
  | none => []
  | some n => n.reached

end

/-- What is reached in some nodes is reached in one of them. -/
theorem mem_reachedAll {ns : List Node} {m : Node} :
    m ∈ reachedAll ns ↔ ∃ n ∈ ns, m ∈ n.reached := by
  induction ns with
  | nil => simp [reachedAll]
  | cons n ns ih => simp [reachedAll, ih]

/-- Where all of every node is reached, all of them are. -/
theorem reachedAll_eq_nodesAll {ns : List Node} (h : ∀ n ∈ ns, n.reached = n.nodes) :
    reachedAll ns = nodesAll ns := by
  induction ns with
  | nil => rfl
  | cons n ns ih =>
    obtain ⟨here, others⟩ := List.forall_mem_cons.1 h
    rw [reachedAll, nodesAll, here, ih others]

/-- A node that is no rule, or a rule whose selectors are there and complete. -/
def IsResolved (m : Node) : Prop :=
  ∀ info selector resolved cs, m = plain info (.rule selector resolved) cs →
    ∃ found, resolved = some found ∧ found ≠ [] ∧ ∀ s ∈ found, Selector.IsComplete s

/-- A rule with complete selectors is resolved. -/
theorem isResolved_of_resolves {info : Info} {h h' : Head} {cs : List Node}
    (resolves : h.Resolves h')
    (complete : ∀ found ∈ h'.selectors?, found ≠ [] ∧ ∀ s ∈ found, Selector.IsComplete s) :
    (plain info h' cs).IsResolved := by
  rintro info' selector resolved cs' e
  cases e
  cases resolves
  exact ⟨_, rfl, complete _ rfl⟩

end Node

namespace Contract

/-- A bare document, or a bare node of one. -/
def Bare (n : Node) : Prop :=
  n.fresh true ∨ ∃ info cs, n = .plain info .root cs ∧ Node.freshAll true cs

/-- The contract of trees that may be `bare`: what an evaluation leaves has the selectors of
its rules, and has nothing but what is reached if the tree is bare. -/
def selecting (bare : Bool) : Contract Unit where
  visited _ n := bare → Bare n
  mixin := ()
  function := ()
  results _ := True
  selector found := found ≠ [] ∧ ∀ s ∈ found, Selector.IsComplete s
  made n := (∀ m ∈ n.reached, m.IsResolved) ∧ (bare → n.reached = n.nodes)
  noted _ := True
  placed _ _ := True

variable {bare : Bool}

/-- In a bare tree, what is inside a node is bare. -/
theorem fresh_inside {info : Info} {head : Head} {cs : List Node}
    (visited : bare → Bare (.plain info head cs)) {n : Node} (hn : n ∈ cs) : bare → Bare n := by
  intro h
  refine .inl (Node.freshAll_iff.1 ?_ n hn)
  rcases visited h with fresh | ⟨_, _, e, fresh⟩
  · exact Node.inner_of_fresh fresh
  · cases e
    exact fresh

/-- Rules get complete selectors wherever they are evaluated. -/
theorem lawful_selecting : (selecting bare).Lawful where
  inside visited _ _ := fresh_inside visited
  clause := by
    intro k info test cs o visited
    have fresh (h : bare) : Node.freshAll true cs ∧ Node.freshOption true o := by
      rcases visited h with fresh | ⟨_, _, e, -⟩
      · simp only [Node.fresh, Bool.and_eq_true] at fresh
        exact ⟨fresh.1.2, fresh.2⟩
      · cases e
    refine ⟨fun n hn h => .inl (Node.freshAll_iff.1 (fresh h).1 n hn), fun n hn h => ?_⟩
    cases hn
    exact .inl (fresh h).2
  ofMixin visited _ := fresh_inside visited
  ofFunction visited _ := fresh_inside visited
  ofResult _ := trivial
  ofInclusion _ _ := trivial
  resolve around found :=
    ⟨Selector.ne_nil_of_resolve found,
      Selector.complete_of_resolve (fun p hp => (around p hp).2) found⟩
  leaf := by
    intro k info head head' cs visited resolves leaf
    have taken := Head.takenOver_of_resolves resolves leaf
    refine ⟨fun m hm => ?_, fun h => ?_⟩
    · rw [Node.reached, if_pos taken] at hm
      obtain rfl := List.mem_singleton.1 hm
      refine Node.isResolved_of_resolves resolves fun found hf => ?_
      cases resolves with
      | rule => cases leaf
      | _ => cases hf
    · have suits : head.suits true cs := by
        rcases visited h with fresh | ⟨_, _, e, -⟩
        · simp only [Node.fresh, Bool.and_eq_true] at fresh
          exact fresh.1.2
        · cases e
          cases leaf
      have body : head.hasBody = false := by
        cases resolves with
        | directive prelude old hasBlock text => exact leaf
        | rule | media | supports | buffer => cases leaf
        | _ => rfl
      rw [Node.reached, if_pos taken, Node.nodes, Head.nil_of_suits suits body]
      rfl
  block := by
    intro k info info' head head' cs cs' visited resolves entered place selectors inner
    have through := Head.not_takenOver_of_resolves resolves entered
    refine ⟨fun m hm => ?_, fun h => ?_⟩
    · rw [Node.reached, if_neg (by simp [through])] at hm
      rcases List.mem_cons.1 hm with rfl | hm
      · exact Node.isResolved_of_resolves resolves selectors
      · obtain ⟨n, hn, hm⟩ := Node.mem_reachedAll.1 hm
        exact (inner n hn).1 m hm
    · rw [Node.reached, if_neg (by simp [through]), Node.nodes,
        Node.reachedAll_eq_nodesAll fun n hn => (inner n hn).2 h]
  note _ _ := trivial

end Contract

namespace Document

/-- What an evaluation leaves: the document, or one of the groups from number `base` on. -/
def Leaves (base : Nat) (evaluated : Captured (List Node)) (n : Node) : Prop :=
  n ∈ evaluated.content ∨ ∃ g : Nat, base ≤ g ∧ evaluated.groups[g]? = some n

/-- **The rules that come out have complete selectors**, if they are not inside something
that is taken over as it is; and all of them do if the document is one that was read. -/
theorem rules_complete {depth : Nat} {options : Options} {info : Info} {cs : List Node}
    {groups : Groups} {log log' : Log} {evaluated : Captured (List Node)}
    (h : evaluateTo depth options { content := .plain info .root cs, groups } log =
      (.ok evaluated, log')) :
    (∀ n, Leaves groups.size evaluated n → ∀ m ∈ n.reached, m.IsResolved) ∧
      ∀ (inputSyntax : Syntax) (file text : String) (before after : Log),
        readIn inputSyntax file text before = (.ok (.plain info .root cs), after) →
          ∀ n, Leaves groups.size evaluated n → ∀ m ∈ n.nodes, m.IsResolved := by
  obtain ⟨w, run, same⟩ := run_of_evaluateTo h
  have kept (bare : Bool) (fresh : bare → Contract.Bare (.plain info .root cs)) (n : Node)
      (hn : Leaves groups.size evaluated n) : (Contract.selecting bare).made n := by
    obtain ⟨met, ends⟩ := Evaluation.keeps_of_run Contract.lawful_selecting
      (fun _ _ _ _ _ _ => trivial) (k := ()) fresh trivial run
    rcases hn with hn | ⟨g, later, found⟩
    · cases ends with
      | ok made => exact made.1 n hn
    · exact met.groups g n later (same ▸ found)
  refine ⟨fun n hn => (kept false nofun n hn).1,
    fun inputSyntax file text before after read n hn m hm => ?_⟩
  obtain ⟨cs', e, bare⟩ := bare_of_readIn read
  cases e
  obtain ⟨resolved, all⟩ := kept true (fun _ => .inr ⟨_, _, rfl, bare⟩) n hn
  exact resolved m (all rfl ▸ hm)

/-- A document with rules in a buffer in a rule, and a flush of them. -/
theorem rules_complete_nested :
    let text := "a , b { @buffer x { &:c d { } } } @flush x;"
    ∃ (info : Info) (cs : List Node) (after : Log) (evaluated : Captured (List Node)) (log : Log),
      readIn .braces "" text #[] = (.ok (.plain info .root cs), after) ∧
        evaluateTo 6 {} { content := .plain info .root cs } #[] = (.ok evaluated, log) ∧
          ∀ n, Leaves 0 evaluated n → ∀ m ∈ n.nodes, m.IsResolved := by
  intro text
  have evaluates : (match readIn .braces "" text #[] with
      | (.ok tree, _) => (evaluateTo 6 {} { content := tree } #[]).1.isOk
      | _ => false) = true := by decide +kernel
  rcases read : readIn .braces "" text #[] with ⟨outcome, after⟩
  rw [read] at evaluates
  cases outcome with
  | error e => cases evaluates
  | ok tree =>
    obtain ⟨cs, rfl, -⟩ := bare_of_readIn read
    dsimp only at evaluates
    rcases run : evaluateTo 6 {} { content := .plain {} .root cs } #[] with ⟨outcome, log⟩
    rw [run] at evaluates
    cases outcome with
    | error e => cases evaluates
    | ok evaluated =>
      exact ⟨{}, cs, after, evaluated, log, rfl, run,
        (rules_complete run).2 .braces "" text #[] after read⟩

/-- A rule inside a declaration is taken over without selectors. -/
theorem rule_in_declaration :
    let inner : Node := .plain {} (.rule [.text "x"] none) []
    let cs : List Node := [.plain {} (.rule [.text "r"] none)
      [.plain {} (.declaration [.text "a"] (some (.literal (.string "b" false))) none none) [inner]]]
    ∃ evaluated log,
      evaluateTo 9 {} { content := .plain {} .root cs } #[] = (.ok evaluated, log) ∧
        ∃ n ∈ evaluated.content, inner ∈ n.nodes ∧ ¬ inner.IsResolved := by
  intro inner cs
  refine ⟨_, _, rfl, _, List.mem_singleton_self _, ?_, fun resolved => ?_⟩
  · simp [inner, Node.nodes, Node.nodesAll]
  · obtain ⟨_, found, -⟩ := resolved _ _ _ _ rfl
    cases found

end Document
end Stylesheet
