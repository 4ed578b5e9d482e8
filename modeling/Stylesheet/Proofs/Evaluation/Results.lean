/-
# Where a result goes

In a tree whose nesting is right no result gets out of the evaluation: the functions in it are
made of scripts, and outside of them there is no `@return` (`Node.guarded`), so the contract
of a tree with results in functions only (`Contract.returning`) is kept.  A result ends the
call of the function that it is in, whose value it is (`result_ends_call`).
-/

import Stylesheet.Proofs.Evaluation.Returns
import Stylesheet.Proofs.Nesting
import Stylesheet.Proofs.Stages

namespace Stylesheet

/-! ### Trees with results in functions only -/

namespace Node

mutual

/-- Whether a tree has no result that is evaluated outside a function, and scripts in its
functions. -/
def guarded : Node → Bool
  | plain _ h cs =>
    match h with
    | .result _ => false
    | .function .. => scriptedAll cs
    | .mixin .. => guardedAll cs
    | h => !(h.entered || h.kind.isControl) || guardedAll cs
  | cond _ _ cs o => guardedAll cs && guardedOption o

/-- Whether some trees have no results outside functions. -/
def guardedAll : List Node → Bool
  | [] => true
  | n :: ns => n.guarded && guardedAll ns

/-- Whether a clause that may be absent has no results outside functions. -/
def guardedOption : Option Node → Bool
  | none => true
  | some n => n.guarded

end

/-- Nodes are guarded if each of them is. -/
theorem guardedAll_iff {ns : List Node} : guardedAll ns ↔ ∀ n ∈ ns, n.guarded := by
  induction ns with
  | nil => simp [guardedAll]
  | cons n ns ih => simp [guardedAll, ih]

/-- A clause that may be absent is guarded if it is there and guarded. -/
theorem guardedOption_iff {o : Option Node} : guardedOption o ↔ ∀ n ∈ o, n.guarded := by
  cases o <;> simp [guardedOption]

end Node

namespace Nesting

variable {around : List Kind}

/-- Outside of functions there is no result. -/
theorem not_result_of_checkPlace {info : Info} {e : Option Expr} {cs : List Node}
    (inside : around ≠ []) (outside : .function ∉ around) :
    checkPlace around (.plain info (.result e) cs) ≠ .ok () := by
  obtain ⟨parent, outer, rfl⟩ := List.exists_cons_of_ne_nil inside
  rw [ne_eq, checkPlace_eq_ok]
  have other : parent ≠ .function := fun e => outside (e ▸ List.mem_cons_self)
  simpa [violation?, Node.kind, Head.kind, other] using outside

/-- What is around the content of a node that is no function. -/
theorem within_outside {k : Kind} (inside : around ≠ []) (outside : .function ∉ around)
    (other : k ≠ .function) : within around k ≠ [] ∧ .function ∉ within around k := by
  unfold within
  split
  · exact ⟨inside, outside⟩
  · exact ⟨List.cons_ne_nil _ _, fun h => (List.mem_cons.1 h).elim (other ·.symm) outside⟩

/-- Outside of functions there are only guarded nodes. -/
theorem passes_guarded : Passes fun around n => around ≠ [] → .function ∉ around → n.guarded where
  plain := by
    intro around info head cs place content inner inside outside
    by_cases function : head.kind = .function
    · cases head with
      | function => exact scriptedAll_of_checkAll content
      | _ => cases function
    · have around' := within_outside inside outside function
      have guarded := Node.guardedAll_iff.2 fun n hn => inner n hn around'.1 around'.2
      cases head with
      | function => exact (function rfl).elim
      | result e => exact (not_result_of_checkPlace inside outside place).elim
      | _ => simp [Node.guarded, guarded]
  cond := by
    intro around info test cs o inner clause inside outside
    rw [Node.guarded, Bool.and_eq_true]
    exact ⟨Node.guardedAll_iff.2 fun n hn => inner n hn inside outside,
      Node.guardedOption_iff.2 fun n hn => clause n hn inside outside⟩

/-- What is inside nodes whose nesting is right, and outside functions, is guarded. -/
theorem guardedAll_of_checkAll {ns : List Node} (inside : around ≠ [])
    (outside : .function ∉ around) (h : checkAll around ns = .ok ()) : Node.guardedAll ns :=
  Node.guardedAll_iff.2 fun n hn => passes_guarded.of_checkAll h n hn inside outside

end Nesting

/-! ### No result gets out -/

/-- The contract of a tree with results in functions only: a node is inside a function and a
script, or it is guarded. -/
def Contract.returning : Contract Bool where
  visited inFunction n := if inFunction then n.scripted else n.guarded
  mixin := false
  function := true
  results inFunction := inFunction
  selector _ := True
  made _ := True
  noted _ := True
  placed f _ := f ≠ .strayResult

namespace Contract

/-- Failures may leave any node. -/
theorem locates_returning (n : Node) : returning.Locates n := by
  intro f log h
  cases f with
  | strayResult =>
    rcases h with ⟨raised, -⟩ | h
    · cases raised
    · exact (h rfl).elim
  | _ => exact nofun

/-- A tree with results in functions only keeps to its contract. -/
theorem lawful_returning : returning.Lawful where
  inside := by
    intro k info head cs visited into
    cases k with
    | true =>
      have scripted : (Node.plain info head cs).scripted := visited
      refine Node.scriptedAll_iff.1 ?_
      cases head with
      | forLoop | eachLoop | whileLoop => exact scripted
      | assignment | result | debug | warn | comment => cases into
      | _ => cases scripted
    | false =>
      have guarded : (Node.plain info head cs).guarded := visited
      refine Node.guardedAll_iff.1 ?_
      cases head with
      | result | function | mixin => cases into
      | _ => simpa [Node.guarded, into] using guarded
  clause := by
    intro k info test cs o visited
    cases k with
    | true =>
      have scripted : (Node.cond info test cs o).scripted := visited
      rw [Node.scripted, Bool.and_eq_true] at scripted
      refine ⟨Node.scriptedAll_iff.1 scripted.1, fun n hn => ?_⟩
      cases hn
      exact scripted.2
    | false =>
      have guarded : (Node.cond info test cs o).guarded := visited
      rw [Node.guarded, Bool.and_eq_true] at guarded
      refine ⟨Node.guardedAll_iff.1 guarded.1, fun n hn => ?_⟩
      cases hn
      exact guarded.2
  ofMixin := by
    intro k info name params cs visited
    cases k with
    | true => cases visited
    | false => exact Node.guardedAll_iff.1 visited
  ofFunction := by
    intro k info name params cs visited
    cases k with
    | true => cases visited
    | false => exact Node.scriptedAll_iff.1 visited
  ofResult := by
    intro k info e cs visited
    cases k with
    | true => rfl
    | false => cases visited
  ofInclusion := fun _ h => nomatch h
  resolve _ _ := trivial
  leaf _ _ _ := trivial
  block _ _ _ _ _ _ := trivial
  note _ _ := trivial

end Contract

/-- **A result ends the call that it is in.**  No evaluation of a document whose nesting is
right ends at a result, whether it comes to an end or fails.  A call of a function whose
content may be in a function has a value exactly when, with its parameters bound, its body
comes to a `@return` with that value, and the call leaves the world as the `@return` does:
the `@return` is in one of the statements, possibly in a clause of an `@if` or in a round of
a loop, and nothing that comes after it is looked at. -/
theorem result_ends_call :
    (∀ (depth : Nat) (options : Options) (info : Info) (cs : List Node) (groups : Groups)
      (log : Log), Nesting.check (.plain info .root cs) = .ok () →
        (Document.evaluateTo depth options { content := .plain info .root cs, groups } log).1 ≠
          .error .strayResult) ∧
      ∀ (depth : Nat) (d : Definition) (outer : List Kind) (args : List Value)
        (keywords : List (String × Value)) (w w' : World) (v : Value),
        Nesting.checkAll (.function :: outer) d.body = .ok () →
          ((Evaluation.invoke (.ofDepth depth) d args keywords).run.run w = (.ok v, w') ↔
            ∃ b w₁, (Evaluation.bind (.ofDepth depth) d args keywords).run.run w = (.ok b, w₁) ∧
              BodyReturns depth b d.body w₁ v w') := by
  refine ⟨fun depth options info cs groups log nesting escapes => ?_,
    fun depth d outer args keywords w w' v content =>
      Evaluation.run_invoke_eq_ok depth (Nesting.scriptedAll_of_checkAll content) args keywords⟩
  have guarded : Node.guardedAll cs :=
    Nesting.guardedAll_of_checkAll (List.cons_ne_nil _ _) (by decide) nesting
  have visited : Contract.returning.visited false (.plain info .root cs) := by
    show (Node.plain info .root cs).guarded
    simp [Node.guarded, guarded]
  obtain ⟨i, w, run, e⟩ := Document.interrupt_of_evaluateTo (Prod.ext escapes rfl)
  obtain ⟨-, ends⟩ := Evaluation.keeps_of_run Contract.lawful_returning
    (fun _ n _ => Contract.locates_returning n) visited trivial run
  cases ends with
  | error stops =>
    cases i with
    | failure f => exact stops e.symm
    | result v => cases stops.1
    | exhausted => cases e

/-- A function that returns in a clause, and a document with it. -/
theorem result_ends_call_in_clause :
    let body : List Node :=
      [.cond {} (some (.literal (.bool true)))
        [.plain {} (.result (some (.literal .null))) [], .plain {} (.result none) []] none,
        .plain {} (.result none) []]
    let d : Definition := { what := .function, name := "f", params := [], scope := 0, body }
    let w := (Evaluation.start {} #[] #[]).2
    (Document.evaluateTo 9 {}
        { content := .plain {} .root [.plain {} (.function "f" []) body] } #[]).1 ≠
        .error .strayResult ∧
      ∃ b w₁, (Evaluation.bind (.ofDepth 9) d [] []).run.run w = (.ok b, w₁) ∧
        BodyReturns 9 b d.body w₁ .null ((Evaluation.invoke (.ofDepth 9) d [] []).after w) := by
  intro body d w
  refine ⟨result_ends_call.1 9 {} {} _ #[] #[] rfl, ?_⟩
  exact (result_ends_call.2 9 d [.root] [] [] w _ .null rfl).1 (Prod.ext rfl rfl)

end Stylesheet
