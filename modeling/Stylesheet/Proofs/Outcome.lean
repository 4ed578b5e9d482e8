/-
# How a compilation ends

A compilation ends with a CSS text, with a diagnostic, with its depth used up, or because a
number is outside the range that it is needed in (`compile_ends`).  The last takes a loop
over integers or a function that counts or rounds: in a style sheet without them, whatever
is computed stays within binary64.

With one, it can come about (`compile_overflow`): a number that has grown beyond every
binary64 number has no integer next to it.
-/

import Stylesheet.Proofs.Evaluation.Steady
import Stylesheet.Proofs.Grammar.Steady
import Stylesheet.Proofs.Stages

namespace Stylesheet

/-- Whether a compilation may end with a failure: it is a diagnostic, the depth that is used
up, or, if there are `integers`, one of range. -/
def Failure.Orderly (integers : Prop) : Failure → Prop
  | diagnostic _ | tooDeep => True
  | range _ => integers
  | _ => False

/-- An orderly failure of an evaluation is one of the compilation. -/
theorem Failure.orderly_of_fair {ints : Bool} {f : Failure} (h : f.fair ints) :
    f.Orderly ints := by
  cases f with
  | diagnostic d => trivial
  | range e => exact h
  | _ => cases h

/-- Integers may be allowed where there are none. -/
theorem Failure.Orderly.mono {p q : Prop} (h : p → q) {f : Failure} (hf : f.Orderly p) :
    f.Orderly q := by
  cases f with
  | range e => exact h hf
  | _ => exact hf

/-- An evaluation of a document whose content is steady. -/
theorem Document.orderly_evaluateTo {ints : Bool} (depth : Nat) (o : Options) {info : Info}
    {cs : List Node} (steady : Node.steadyAll ints false false cs) :
    (Document.evaluateTo depth o { content := .plain info .root cs }).Stops
      (Failure.Orderly ints) := by
  refine .bind (fun log => ?_) fun _ _ _ _ => .pure _
  have start : (Evaluation.start o #[] log).2.scopes.Steady ints := fun i => by
    constructor <;> intro name x e
    · rw [Evaluation.start_field (·.vars) fun _ _ _ => rfl] at e
      cases e
    · rw [Evaluation.start_field (·.mixins) fun _ _ _ => rfl] at e
      cases e
    · rw [Evaluation.start_field (·.functions) fun _ _ _ => rfl] at e
      cases e
  have ends := Evaluation.ends_of_steady depth (i := (Evaluation.start o #[] log).1)
    (n := .plain info .root cs) steady start
  unfold Eval.inDocument Eval.runFresh
  dsimp only
  rw [Eval.run_eq]
  generalize Eval.outcome _ _ = outcome at ends
  cases ends with
  | ok => exact .done
  | error h =>
    rename_i i
    cases i with
    | failure f => exact .error (Failure.orderly_of_fair h)
    | result v => cases h
    | exhausted => exact .error trivial

/-- The CSS of a document that has been read, evaluated with integers only if it counts. -/
theorem Document.orderly_cssTo (depth : Nat) (o : Options) {tree : Node}
    {inputSyntax : Syntax} {file text : String} {log log' : Log}
    (read : Document.readIn inputSyntax file text log = (.ok tree, log')) :
    (Document.cssTo depth o tree).Stops (Failure.Orderly tree.counts) := by
  obtain ⟨cs, rfl, fresh⟩ := Document.bare_of_readIn read
  obtain ⟨cs', e, complete⟩ := Document.steady_of_readIn read
  cases e
  refine Document.stops_cssTo (fun _ _ => trivial) (fun right => ?_) fun _ _ _ _ root _ =>
    Layout.stops_layNode .other root fun _ _ _ => trivial
  rw [Nesting.check, Nesting.checkIn, Nesting.bind_eq_ok_iff] at right
  have inside : Node.steadyAll true false false cs :=
    Nesting.steady_of_checkAll (fun _ => rfl) fresh complete right.2
  have steady : Node.steadyAll (Node.countsAny cs) false false cs := by
    cases counts : Node.countsAny cs with
    | true => exact inside
    | false => exact Node.steadyAll_of_counts inside counts
  exact Document.orderly_evaluateTo depth o steady

/-- How what ends as a compilation may has ended. -/
theorem Ends.cases_orderly {α : Type} {integers : Prop} {x : Except Failure α}
    (h : Ends (Failure.Orderly integers) x fun _ => True) :
    (∃ a, x = .ok a) ∨ (∃ d, x = .error (.diagnostic d)) ∨ x = .error .tooDeep ∨
      (∃ e, x = .error (.range e)) ∧ integers := by
  cases h with
  | ok => exact .inl ⟨_, rfl⟩
  | error h =>
    rename_i f
    cases f with
    | diagnostic d => exact .inr (.inl ⟨d, rfl⟩)
    | tooDeep => exact .inr (.inr (.inl rfl))
    | range e => exact .inr (.inr (.inr ⟨⟨e, rfl⟩, h⟩))
    | missingExpression | strayResult => cases h

/-- **How a compilation ends.**  It gives a CSS text, or it is refused with a diagnostic, or
it goes deeper than evaluations are allowed to; a number is outside the range it is needed
in only if the style sheet has a loop over integers or calls a function that counts or
rounds. -/
theorem compile_ends (o : Options) (text : String) (log : Log) :
    (∃ css, (compile o text log).1 = .ok css) ∨
      (∃ d, (compile o text log).1 = .error (.diagnostic d)) ∨
      (compile o text log).1 = .error .tooDeep ∨
      (∃ e, (compile o text log).1 = .error (.range e)) ∧
        ∃ tree notes notes', Document.readIn o.inputSyntax o.file text notes = (.ok tree, notes') ∧
          tree.counts := by
  refine Ends.cases_orderly (stops_compile ?_ (fun tree notes notes' read => ?_) log)
  · exact Document.stops_readIn _ (fun _ _ _ => trivial) fun _ _ => trivial
  · exact (Document.orderly_cssTo Evaluation.depth o read).mono fun _ =>
      .mono fun counts => ⟨tree, notes, notes', read, counts⟩

/-- A number that is squared nine times is beyond binary64, and has no integer next to it. -/
theorem compile_overflow :
    (compile {} "$a:9;@for $i from 1 to 10{$a:$a*$a}$b:round($a);" #[]).1 =
      .error (.range .overflow) := by
  decide +kernel

end Stylesheet
