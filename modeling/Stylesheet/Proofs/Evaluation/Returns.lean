/-
# How a visit returns

`Returns depth i n w v w'` tells how the visit of `n` in the scope `i`, started in the world
`w`, comes to a `@return` with the value `v` and leaves the world `w'`: it is at the `@return`,
or goes on in the clause of an `@if`, or in a round of a loop, after the rounds before it and
after the statements before it in that body.  What comes later is in no premise.

That is how evaluators return (`Returns.run`), and for scripts the only way
(`Returns.of_run`): expressions end at no result, since a call catches those of its function.
-/

import Stylesheet.Proofs.Evaluation.Contract

namespace Stylesheet
namespace Eval

variable {α β γ : Type}

/-- Evaluations that come to their ends one after the other. -/
inductive Passes (f : γ → Eval α) : List γ → World → World → Prop
  | nil (w : World) : Passes f [] w w
  | cons {c : γ} {l : List γ} {a : α} {w w₁ w' : World}
      (first : (f c).run.run w = (.ok a, w₁)) (rest : Passes f l w₁ w') : Passes f (c :: l) w w'

/-- An evaluation that ends at no result. -/
def Whole (x : Eval α) : Prop :=
  ∀ w v w', x.run.run w ≠ (.error (.result v), w')

/-- The whole is interrupted in its first part or in what follows. -/
theorem run_bind_eq_error {x : Eval α} {f : α → Eval β} {w w' : World} {e : Interrupt} :
    (x >>= f).run.run w = (.error e, w') ↔ x.run.run w = (.error e, w') ∨
      ∃ a w₁, x.run.run w = (.ok a, w₁) ∧ (f a).run.run w₁ = (.error e, w') := by
  rw [run_bind, run_eq x]
  cases x.outcome w with
  | ok a =>
    constructor
    · exact fun h => .inr ⟨a, _, rfl, h⟩
    · rintro (h | ⟨_, _, ⟨⟩, h⟩)
      · cases h
      · exact h
  | error i =>
    constructor
    · rintro ⟨⟩
      exact .inl rfl
    · rintro (⟨⟨⟩⟩ | ⟨_, _, h, -⟩)
      · rfl
      · cases h

/-- The whole comes to an end when both parts do. -/
theorem run_bind_eq_ok {x : Eval α} {f : α → Eval β} {w w' : World} {b : β} :
    (x >>= f).run.run w = (.ok b, w') ↔
      ∃ a w₁, x.run.run w = (.ok a, w₁) ∧ (f a).run.run w₁ = (.ok b, w') := by
  rw [run_bind, run_eq x]
  cases x.outcome w with
  | ok a =>
    constructor
    · exact fun h => ⟨a, _, rfl, h⟩
    · rintro ⟨_, _, ⟨⟩, h⟩
      exact h
  | error i =>
    constructor
    · rintro ⟨⟩
    · rintro ⟨_, _, h, -⟩
      cases h

/-- What is interrupted on the way through a list is so at one of its elements, when those
before it have come to their ends. -/
theorem run_mapM_eq_error {f : γ → Eval α} {l : List γ} {w w' : World} {e : Interrupt} :
    (l.mapM f).run.run w = (.error e, w') ↔ ∃ before c after w₁, l = before ++ c :: after ∧
      Passes f before w w₁ ∧ (f c).run.run w₁ = (.error e, w') := by
  induction l generalizing w with
  | nil =>
    constructor
    · rintro ⟨⟩
    · rintro ⟨before, c, after, w₁, split, -⟩
      cases before <;> cases split
  | cons c l ih =>
    rw [List.mapM_cons, run_bind_eq_error]
    constructor
    · rintro (here | ⟨a, w₁, first, rest⟩)
      · exact ⟨[], c, l, w, rfl, .nil w, here⟩
      · rcases run_bind_eq_error.1 rest with later | ⟨as, w₂, -, ⟨⟩⟩
        obtain ⟨before, d, after, w₂, rfl, passes, there⟩ := ih.1 later
        exact ⟨c :: before, d, after, w₂, rfl, .cons first passes, there⟩
    · rintro ⟨before, d, after, w₁, split, passes, there⟩
      cases passes with
      | nil =>
        cases split
        exact .inl there
      | cons first passes =>
        cases split
        exact .inr ⟨_, _, first, run_bind_eq_error.2 (.inl (ih.2 ⟨_, d, after, w₁, rfl, passes, there⟩))⟩

/-- Evaluations of which nothing is kept are evaluations one after the other. -/
theorem forM_eq_mapM_bind (f : γ → Eval α) (l : List γ) :
    (l.forM fun c => do let _ ← f c) = l.mapM f >>= fun _ => pure () := by
  induction l with
  | nil => rfl
  | cons c l ih =>
    rw [List.mapM_cons, bind_assoc]
    show (f c >>= fun _ => pure ()) >>= (fun _ => l.forM fun c => do let _ ← f c) = _
    rw [ih, bind_assoc]
    simp only [pure_bind, bind_assoc]

/-- A failure gets a place, but not a result. -/
theorem run_locate_eq_result {span : Span} {x : Eval α} {w w' : World} {v : Value} :
    (locate span x).run.run w = (.error (.result v), w') ↔
      x.run.run w = (.error (.result v), w') := by
  rw [locate, run_tryCatch, run_eq x]
  cases x.outcome w with
  | ok a => exact iff_of_false (fun h => by cases h) fun h => by cases h
  | error i =>
    cases i with
    | failure f => exact iff_of_false (fun h => by cases h) fun h => by cases h
    | result u => exact Iff.rfl
    | exhausted => exact Iff.rfl

/-- A result is caught where there is one. -/
theorem run_catchResult_eq_some {x : Eval Unit} {w w' : World} {v : Value} :
    (catchResult x).run.run w = (.ok (some v), w') ↔ x.run.run w = (.error (.result v), w') := by
  rw [catchResult, run_tryCatch, outcome_bind, after_bind, run_eq x]
  cases x.outcome w with
  | ok a => exact iff_of_false (fun h => by cases h) fun h => by cases h
  | error i =>
    cases i with
    | failure f => exact iff_of_false (fun h => by cases h) fun h => by cases h
    | exhausted => exact iff_of_false (fun h => by cases h) fun h => by cases h
    | result u =>
      constructor
      · rintro ⟨⟩
        rfl
      · rintro ⟨⟩
        rfl

namespace Whole

variable {x : Eval α} {f : α → Eval β} {w w' : World} {v : Value}

/-- What stands still ends at no result. -/
theorem pure (a : α) : Whole (Pure.pure a : Eval α) :=
  fun _ _ _ => nofun

/-- Two parts that end at no result end at none together. -/
theorem bind (hx : Whole x) (hf : ∀ a, Whole (f a)) : Whole (x >>= f) := fun w v w' h => by
  rcases run_bind_eq_error.1 h with h | ⟨a, w₁, -, h⟩
  · exact hx w v w' h
  · exact hf a w₁ v w' h

/-- A result after what ends at none. -/
theorem run_bind_eq_result (hx : Whole x) :
    (x >>= f).run.run w = (.error (.result v), w') ↔
      ∃ a w₁, x.run.run w = (.ok a, w₁) ∧ (f a).run.run w₁ = (.error (.result v), w') :=
  run_bind_eq_error.trans (or_iff_right (hx w v w'))

end Whole
end Eval

/-! ### Expressions -/

/-- The contract that asks for nothing. -/
def Contract.anything : Contract Unit where
  visited _ _ := True
  mixin := ()
  function := ()
  results _ := True
  selector _ := True
  made _ := True
  noted _ := True
  placed _ _ := True

/-- Everything keeps to the contract that asks for nothing. -/
theorem Contract.lawful_anything : anything.Lawful where
  inside _ _ _ _ := trivial
  clause _ := ⟨fun _ _ => trivial, fun _ _ => trivial⟩
  ofMixin _ _ _ := trivial
  ofFunction _ _ _ := trivial
  ofResult _ := trivial
  ofInclusion _ := id
  resolve _ _ := trivial
  leaf _ _ _ := trivial
  block _ _ _ _ _ _ := trivial
  note _ _ := trivial

/-- What an expression does ends at no result, whatever the nodes are. -/
theorem Eval.Whole.of_follows {α : Type} {x : Eval α} {fits : α → List Node → Prop} {i : ScopeId}
    (h : Follows ((Contract.anything.conduct 0).expression i) x fits) : Whole x := by
  intro w v w' run
  have met : Contract.anything.Met 0 w :=
    { scopes := ⟨fun _ _ _ _ _ _ => trivial, fun _ _ _ _ _ _ => trivial, fun _ _ _ => trivial⟩
      groups := fun _ _ _ _ => trivial }
  rcases (h w ⟨met, trivial⟩).ended with ⟨_, _, e, -⟩ | ⟨j, e, -, stopping⟩
  · rw [Eval.outcome, run] at e
    cases e
  · rw [Eval.outcome, run] at e
    cases e
    exact stopping.1

namespace Evaluation

open Eval

/-- Evaluators keep to the contract that asks for nothing. -/
theorem keeps_anything (depth : Nat) : (Recursion.ofDepth depth).Keeps Contract.anything 0 :=
  Recursion.keeps_ofDepth Contract.lawful_anything (fun _ _ _ _ _ _ => trivial) 0 depth

variable {depth : Nat} {i : ScopeId}

/-- An expression that has to be there ends at no result. -/
theorem whole_evalRequired (e : Option Expr) :
    Whole (evalRequired (Recursion.ofDepth depth) i e) :=
  .of_follows (follows_required (Contract.lawful_conduct Contract.lawful_anything)
    (keeps_anything depth) ⟨fun _ _ => trivial, fun _ => .missing⟩)

/-- A test ends at no result. -/
theorem whole_testHolds (test : Option Expr) :
    Whole (testHolds (Recursion.ofDepth depth) i test) :=
  .of_follows (follows_testHolds (keeps_anything depth) fun _ _ => trivial)

/-- The bound of a loop ends at no result. -/
theorem whole_bound (v : Value) (label : String) : Whole (bound v label) :=
  .of_follows (i := 0)
    (follows_bound (Contract.lawful_conduct Contract.lawful_anything) trivial label)

/-- A computation with numbers ends at no result. -/
theorem whole_liftRange {α : Type} (x : Except Number.RangeError α) : Whole (Eval.liftRange x) :=
  .of_follows (i := 0) (follows_lift (Contract.lawful_conduct Contract.lawful_anything)
    (Raises.liftRange x))

end Evaluation

/-! ### The way to a result -/

section

open Eval Evaluation

mutual

/-- The visit of a node in a scope, to a depth, comes from one world to a `@return` with a
value in another. -/
inductive Returns : Nat → ScopeId → Node → World → Value → World → Prop
  /-- The `@return` itself. -/
  | result {depth : Nat} {i : ScopeId} {info : Info} {e : Option Expr} {cs : List Node}
      {w w' : World} {v : Value}
      (value : (evalRequired (.ofDepth depth) i e).run.run w = (.ok v, w')) :
      Returns (depth + 1) i (.plain info (.result e) cs) w v w'
  /-- In a clause whose test holds. -/
  | clause {depth : Nat} {i b : ScopeId} {info : Info} {test : Option Expr} {cs : List Node}
      {otherwise : Option Node} {w w₁ w₂ w' : World} {v : Value}
      (holds : (testHolds (.ofDepth depth) i test).run.run w = (.ok true, w₁))
      (block : (newBlock i).run.run w₁ = (.ok b, w₂))
      (returns : BodyReturns depth b cs w₂ v w') :
      Returns (depth + 1) i (.cond info test cs otherwise) w v w'
  /-- In what is done instead. -/
  | otherwise {depth : Nat} {i : ScopeId} {info : Info} {test : Option Expr} {cs : List Node}
      {clause : Node} {w w₁ w' : World} {v : Value}
      (fails : (testHolds (.ofDepth depth) i test).run.run w = (.ok false, w₁))
      (returns : Returns depth i clause w₁ v w') :
      Returns (depth + 1) i (.cond info test cs (some clause)) w v w'
  /-- In a round of a loop over integers. -/
  | forLoop {depth : Nat} {i loop : ScopeId} {info : Info} {var : String}
      {start stop : Option Expr} {exclusive : Bool} {cs : List Node} {u₁ u₂ v : Value}
      {first last : Int × String} {w w₁ w₂ w₃ w₄ w₅ w' : World}
      (start' : (evalRequired (.ofDepth depth) i start).run.run w = (.ok u₁, w₁))
      (first' : (bound u₁ "from").run.run w₁ = (.ok first, w₂))
      (stop' : (evalRequired (.ofDepth depth) i stop).run.run w₂ = (.ok u₂, w₃))
      (last' : (bound u₂ "to").run.run w₃ = (.ok last, w₄))
      (block : (newBlock i).run.run w₄ = (.ok loop, w₅))
      (returns : RoundsReturn depth loop var
        (counted first.2 (range first.1 last.1 exclusive).2 (range first.1 last.1 exclusive).1
          first.1) cs w₅ v w') :
      Returns (depth + 1) i (.plain info (.forLoop var start stop exclusive) cs) w v w'
  /-- In a round of a loop over the items of a list. -/
  | eachLoop {depth : Nat} {i loop : ScopeId} {info : Info} {var : String} {list : Option Expr}
      {cs : List Node} {u v : Value} {w w₁ w₂ w' : World}
      (list' : (evalRequired (.ofDepth depth) i list).run.run w = (.ok u, w₁))
      (block : (newBlock i).run.run w₁ = (.ok loop, w₂))
      (returns : RoundsReturn depth loop var u.items cs w₂ v w') :
      Returns (depth + 1) i (.plain info (.eachLoop var list) cs) w v w'
  /-- In a round of a loop with a test. -/
  | whileLoop {depth : Nat} {i : ScopeId} {info : Info} {test : Option Expr} {cs : List Node}
      {v : Value} {w w' : World}
      (returns : WhileReturns depth i test cs (Recursion.ofDepth depth).rounds w v w') :
      Returns (depth + 1) i (.plain info (.whileLoop test) cs) w v w'

/-- Some statements return: those before one that returns come to their ends, and those
after it are not looked at. -/
inductive BodyReturns : Nat → ScopeId → List Node → World → Value → World → Prop
  | mk {depth : Nat} {b : ScopeId} {n : Node} {v : Value} {w w₁ w' : World}
      (before later : List Node)
      (passes : Passes ((Recursion.ofDepth depth).visit b) before w w₁)
      (returns : Returns depth b n w₁ v w') :
      BodyReturns depth b (before ++ n :: later) w v w'

/-- Some rounds of a loop over values return: those before one that returns come to their
ends. -/
inductive RoundsReturn :
    Nat → ScopeId → String → List Value → List Node → World → Value → World → Prop
  | mk {depth : Nat} {loop b : ScopeId} {var : String} {u v : Value} {cs : List Node}
      {w w₁ w₂ w' : World} (before later : List Value)
      (passes : Passes (round (.ofDepth depth) loop var cs) before w w₁)
      (block : (newBlock loop).run.run
        { w₁ with scopes := w₁.scopes.setLocalVar loop var u } = (.ok b, w₂))
      (returns : BodyReturns depth b cs w₂ v w') :
      RoundsReturn depth loop var (before ++ u :: later) cs w v w'

/-- Some of so many rounds of a loop with a test return. -/
inductive WhileReturns :
    Nat → ScopeId → Option Expr → List Node → Nat → World → Value → World → Prop
  /-- In the round that comes first. -/
  | here {depth : Nat} {i b : ScopeId} {test : Option Expr} {cs : List Node} {rounds : Nat}
      {u v : Value} {w w₁ w₂ w' : World}
      (holds : (evalRequired (.ofDepth depth) i test).run.run w = (.ok u, w₁)) (truthy : u.truthy)
      (block : (newBlock i).run.run w₁ = (.ok b, w₂))
      (returns : BodyReturns depth b cs w₂ v w') :
      WhileReturns depth i test cs (rounds + 1) w v w'
  /-- In a later one. -/
  | again {depth : Nat} {i : ScopeId} {test : Option Expr} {cs found : List Node} {rounds : Nat}
      {u v : Value} {w w₁ w₂ w' : World}
      (holds : (evalRequired (.ofDepth depth) i test).run.run w = (.ok u, w₁)) (truthy : u.truthy)
      (passes : (visitBody (.ofDepth depth) i cs).run.run w₁ = (.ok found, w₂))
      (returns : WhileReturns depth i test cs rounds w₂ v w') :
      WhileReturns depth i test cs (rounds + 1) w v w'

end

end

namespace Evaluation

open Eval

variable {depth : Nat} {i : ScopeId} {cs : List Node} {w w' : World} {v : Value}

/-- Of the visits of some nodes, `Returns` tells exactly when they end at a result. -/
def Returning (depth : Nat) (cs : List Node) : Prop :=
  ∀ n ∈ cs, ∀ i w v w', ((Recursion.ofDepth depth).visit i n).run.run w = (.error (.result v), w') ↔
    Returns depth i n w v w'

section

variable (h : Returning depth cs)

include h

/-- Statements end at a result as one of them returns. -/
theorem run_statements_eq_result :
    (cs.mapM ((Recursion.ofDepth depth).visit i)).run.run w = (.error (.result v), w') ↔
      BodyReturns depth i cs w v w' := by
  rw [run_mapM_eq_error]
  constructor
  · rintro ⟨before, n, later, w₁, rfl, passes, there⟩
    exact .mk before later passes ((h n (by simp) i w₁ v w').1 there)
  · rintro ⟨before, later, passes, returns⟩
    exact ⟨before, _, later, _, rfl, passes, (h _ (by simp) i _ v w').2 returns⟩

/-- A body ends at a result as its statements return in the block made for it. -/
theorem run_visitBody_eq_result :
    (visitBody (.ofDepth depth) i cs).run.run w = (.error (.result v), w') ↔
      ∃ b w₁, (newBlock i).run.run w = (.ok b, w₁) ∧ BodyReturns depth b cs w₁ v w' := by
  have block : Whole (newBlock i) := fun _ _ _ => nofun
  rw [visitBody, block.run_bind_eq_result]
  refine exists_congr fun b => exists_congr fun w₁ => and_congr_right fun _ => ?_
  rw [← run_statements_eq_result h, visitAll, run_bind_eq_error]
  exact or_iff_left fun ⟨_, _, _, e⟩ => nomatch e

/-- A round ends at a result as its body returns, with the variable set. -/
theorem run_round_eq_result {loop : ScopeId} {var : String} {u : Value} :
    (round (.ofDepth depth) loop var cs u).run.run w = (.error (.result v), w') ↔
      ∃ b w₁, (newBlock loop).run.run { w with scopes := w.scopes.setLocalVar loop var u } =
        (.ok b, w₁) ∧ BodyReturns depth b cs w₁ v w' :=
  run_visitBody_eq_result h

/-- Rounds end at a result as one of them returns. -/
theorem run_rounds_eq_result {loop : ScopeId} {var : String} {values : List Value} :
    (values.mapM (round (.ofDepth depth) loop var cs)).run.run w = (.error (.result v), w') ↔
      RoundsReturn depth loop var values cs w v w' := by
  rw [run_mapM_eq_error]
  constructor
  · rintro ⟨before, u, later, w₁, rfl, passes, there⟩
    obtain ⟨b, w₂, block, returns⟩ := (run_round_eq_result h).1 there
    exact .mk before later passes block returns
  · rintro ⟨before, later, passes, block, returns⟩
    exact ⟨before, _, later, _, rfl, passes, (run_round_eq_result h).2 ⟨_, _, block, returns⟩⟩

/-- A loop over values ends at a result as its rounds return. -/
theorem run_eachRounds_eq_result {var : String} {values : List Value} :
    (eachRounds (.ofDepth depth) i var values cs).run.run w = (.error (.result v), w') ↔
      ∃ loop w₁, (newBlock i).run.run w = (.ok loop, w₁) ∧
        RoundsReturn depth loop var values cs w₁ v w' := by
  have block : Whole (newBlock i) := fun _ _ _ => nofun
  rw [eachRounds, block.run_bind_eq_result]
  refine exists_congr fun loop => exists_congr fun w₁ => and_congr_right fun _ => ?_
  rw [← run_rounds_eq_result h, run_bind_eq_error]
  exact or_iff_left fun ⟨_, _, _, e⟩ => nomatch e

/-- A loop over integers ends at a result as its rounds return. -/
theorem run_forRounds_eq_result {loop : ScopeId} {var unit : String} {step first : Int}
    {n : Nat} {found : List (List Node)} :
    (forRounds (.ofDepth depth) loop var unit cs step n first found).run.run w =
        (.error (.result v), w') ↔
      RoundsReturn depth loop var (counted unit step n first) cs w v w' := by
  rw [← run_rounds_eq_result h, forRounds_eq_mapM, run_bind_eq_error]
  exact or_iff_left fun ⟨_, _, _, e⟩ => nomatch e

/-- A loop with a test ends at a result as its rounds return. -/
theorem run_whileRounds_eq_result {test : Option Expr} {rounds : Nat} {found : List (List Node)} :
    (whileRounds (.ofDepth depth) i test cs rounds found).run.run w = (.error (.result v), w') ↔
      WhileReturns depth i test cs rounds w v w' := by
  induction rounds generalizing w found with
  | zero => exact ⟨nofun, nofun⟩
  | succ rounds ih =>
    rw [whileRounds, (whole_evalRequired test).run_bind_eq_result]
    constructor
    · rintro ⟨u, w₁, holds, rest⟩
      split at rest
      · rename_i truthy
        rcases run_bind_eq_error.1 rest with here | ⟨nodes, w₂, passes, later⟩
        · obtain ⟨b, w₂, block, returns⟩ := (run_visitBody_eq_result h).1 here
          exact .here holds truthy block returns
        · exact .again holds truthy passes (ih.1 later)
      · cases rest
    · intro returns
      cases returns with
      | here holds truthy block returns =>
        refine ⟨_, _, holds, ?_⟩
        rw [if_pos truthy]
        exact run_bind_eq_error.2 (.inl ((run_visitBody_eq_result h).2 ⟨_, _, block, returns⟩))
      | again holds truthy passes returns =>
        refine ⟨_, _, holds, ?_⟩
        rw [if_pos truthy]
        exact run_bind_eq_error.2 (.inr ⟨_, _, passes, ih.2 returns⟩)

end

/-- Scripts without content end at no result, but for `@return`. -/
theorem whole_script {info info' : Info} {head : Head}
    (scripted : (Node.plain info head cs).scripted)
    (leaf : head.kind.isControl = false) (other : head.kind ≠ .result) :
    Whole (visitPlain (.ofDepth depth) i info' head cs) := by
  have scopes : Whole Eval.scopes := fun _ _ _ => nofun
  have note (level : Level) (stage : Stage) (text : String) : Whole (Eval.note level stage text) :=
    fun _ _ _ => nofun
  have modifies (f : Scopes → Scopes) : Whole (modifyScopes f) := fun _ _ _ => nofun
  cases head with
  | assignment name value guarded =>
    refine scopes.bind fun s => ?_
    extract_lets kept
    split
    · exact .pure _
    · exact (whole_evalRequired value).bind fun v => (modifies _).bind fun _ => .pure _
  | debug value =>
    exact (whole_evalRequired value).bind fun v => (whole_liftRange _).bind fun _ =>
      (note _ _ _).bind fun _ => .pure _
  | warn value =>
    refine (whole_evalRequired value).bind fun v => scopes.bind fun s => ?_
    split
    · exact .pure _
    · exact (whole_liftRange _).bind fun _ => (note _ _ _).bind fun _ => .pure _
  | comment text silent => exact .pure _
  | result => exact (other rfl).elim
  | forLoop | eachLoop | whileLoop => cases leaf
  | _ => cases scripted

/-- A script ends at a result as `Returns` tells, if what is inside it does. -/
theorem run_visitPlain_eq_result {info info' : Info} {head : Head}
    (scripted : (Node.plain info head cs).scripted)
    (h : head.kind.isControl → Returning depth cs) :
    (visitPlain (.ofDepth depth) i info' head cs).run.run w = (.error (.result v), w') ↔
      Returns (depth + 1) i (.plain info head cs) w v w' := by
  cases head with
  | result e =>
    refine (whole_evalRequired e).run_bind_eq_result.trans ?_
    constructor
    · rintro ⟨u, w₁, value, ⟨⟩⟩
      exact .result value
    · intro returns
      cases returns with
      | result value => exact ⟨v, w', value, rfl⟩
  | forLoop var start stop exclusive =>
    have block : Whole (newBlock i) := fun _ _ _ => nofun
    rw [visitPlain, (whole_evalRequired start).run_bind_eq_result]
    simp only [(whole_bound _ _).run_bind_eq_result, (whole_evalRequired stop).run_bind_eq_result,
      block.run_bind_eq_result, run_forRounds_eq_result (h rfl)]
    constructor
    · rintro ⟨u₁, w₁, start', first, w₂, first', u₂, w₃, stop', last, w₄, last', loop, w₅, block,
        returns⟩
      exact .forLoop start' first' stop' last' block returns
    · intro returns
      cases returns with
      | forLoop start' first' stop' last' block returns =>
        exact ⟨_, _, start', _, _, first', _, _, stop', _, _, last', _, _, block, returns⟩
  | eachLoop var list =>
    rw [visitPlain, (whole_evalRequired list).run_bind_eq_result]
    simp only [run_eachRounds_eq_result (h rfl)]
    constructor
    · rintro ⟨u, w₁, list', loop, w₂, block, returns⟩
      exact .eachLoop list' block returns
    · intro returns
      cases returns with
      | eachLoop list' block returns => exact ⟨_, _, list', _, _, block, returns⟩
  | whileLoop test =>
    refine (run_whileRounds_eq_result (h rfl)).trans ⟨?_, ?_⟩
    · exact .whileLoop
    · intro returns
      cases returns with
      | whileLoop returns => exact returns
  | _ =>
    refine iff_of_false (whole_script scripted rfl nofun _ _ _) ?_
    rintro ⟨⟩

/-- **Scripts end at a result as `Returns` tells, and in no other way.** -/
theorem run_visit_eq_result (depth : Nat) {n : Node} (scripted : n.scripted) (i : ScopeId)
    (w : World) (v : Value) (w' : World) :
    ((Recursion.ofDepth depth).visit i n).run.run w = (.error (.result v), w') ↔
      Returns depth i n w v w' := by
  induction depth generalizing n i w v w' with
  | zero =>
    refine iff_of_false nofun ?_
    rintro ⟨⟩
  | succ depth ih =>
    have inside {cs : List Node} (h : Node.scriptedAll cs) : Returning depth cs :=
      fun n hn => ih (Node.scriptedAll_iff.1 h n hn)
    refine run_locate_eq_result.trans ?_
    match n with
    | .plain info head cs =>
      refine run_visitPlain_eq_result scripted fun control => inside ?_
      cases head with
      | forLoop | eachLoop | whileLoop => exact scripted
      | _ => cases control
    | .cond info test cs otherwise =>
      rw [Node.scripted, Bool.and_eq_true] at scripted
      refine (whole_testHolds test).run_bind_eq_result.trans ?_
      constructor
      · rintro ⟨holds, w₁, tested, rest⟩
        cases holds with
        | true =>
          obtain ⟨b, w₂, block, returns⟩ := (run_visitBody_eq_result (inside scripted.1)).1 rest
          exact .clause tested block returns
        | false =>
          cases otherwise with
          | none => cases rest
          | some clause => exact .otherwise tested ((ih scripted.2 _ _ _ _).1 rest)
      · intro returns
        cases returns with
        | clause tested block returns =>
          exact ⟨true, _, tested,
            (run_visitBody_eq_result (inside scripted.1)).2 ⟨_, _, block, returns⟩⟩
        | otherwise tested returns =>
          exact ⟨false, _, tested, (ih scripted.2 _ _ _ _).2 returns⟩

/-- A function made of scripts has a value exactly when its body returns it. -/
theorem run_invoke_eq_ok (depth : Nat) {d : Definition} (scripted : Node.scriptedAll d.body)
    (args : List Value) (keywords : List (String × Value)) :
    (invoke (.ofDepth depth) d args keywords).run.run w = (.ok v, w') ↔
      ∃ b w₁, (bind (.ofDepth depth) d args keywords).run.run w = (.ok b, w₁) ∧
        BodyReturns depth b d.body w₁ v w' := by
  have returning : Returning depth d.body :=
    fun n hn => run_visit_eq_result depth (Node.scriptedAll_iff.1 scripted n hn)
  rw [invoke, run_bind_eq_ok]
  refine exists_congr fun b => exists_congr fun w₁ => and_congr_right fun _ => ?_
  rw [← run_statements_eq_result returning, run_bind_eq_ok, forM_eq_mapM_bind]
  constructor
  · rintro ⟨result, w₂, caught, rest⟩
    cases result with
    | none => cases rest
    | some u =>
      cases rest
      refine (run_bind_eq_error.1 (run_catchResult_eq_some.1 caught)).resolve_right ?_
      rintro ⟨_, _, _, ⟨⟩⟩
  · intro ends
    exact ⟨some v, w', run_catchResult_eq_some.2 (run_bind_eq_error.2 (.inl ends)), rfl⟩

end Evaluation
end Stylesheet
