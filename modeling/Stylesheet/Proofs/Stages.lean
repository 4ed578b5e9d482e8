/-
# Running the stages

A stage started with some notes has an outcome and adds to them.  The rules here say what
the stages that come to an end have gone through.

A stage may be known to fail in some way if it fails (`Logged.Stops`).  So does a compilation
if all its stages do (`stops_compile`).
-/

import Stylesheet.Compile
import Stylesheet.Proofs.Layout.Failures

namespace Stylesheet

variable {α β : Type} {log log' : Log}

/-- A stage goes on with what the one before has come to, and with its notes. -/
theorem Logged.run_bind (x : Logged α) (f : α → Logged β) (log : Log) :
    (x >>= f) log = match x log with
      | (.ok a, notes) => f a notes
      | (.error e, notes) => (.error e, notes) := by
  change (x >>= f).run.run log = match x.run.run log with
    | (.ok a, notes) => (f a).run.run notes
    | (.error e, notes) => (.error e, notes)
  simp only [ExceptT.run_bind, StateT.run_bind]
  generalize x.run.run log = r
  obtain ⟨o, notes⟩ := r
  cases o <;> rfl

/-- What a stage that comes to an end has gone through. -/
theorem Logged.bind_eq_ok {x : Logged α} {f : α → Logged β} {b : β}
    (h : (x >>= f) log = (.ok b, log')) :
    ∃ a notes, x log = (.ok a, notes) ∧ f a notes = (.ok b, log') := by
  rw [Logged.run_bind] at h
  split at h
  · exact ⟨_, _, by assumption, h⟩
  · cases h

/-- An evaluation that comes to an end is a run that does. -/
theorem Document.run_of_evaluateTo {depth : Nat} {options : Options} {tree : Captured Node}
    {evaluated : Captured (List Node)}
    (h : Document.evaluateTo depth options tree log = (.ok evaluated, log')) :
    ∃ w, Eval.runFresh options tree.groups log
        (fun scope => (Recursion.ofDepth depth).visit scope tree.content) =
          (.ok evaluated.content, w) ∧ evaluated.groups = w.groups := by
  obtain ⟨p, notes, run, e⟩ := Logged.bind_eq_ok h
  cases e
  unfold Eval.inDocument at run
  rcases o : Eval.runFresh _ _ _ _ with ⟨outcome, w⟩
  rw [o] at run
  cases outcome with
  | ok a =>
    cases run
    exact ⟨w, rfl, rfl⟩
  | error i => cases run

/-- An evaluation fails for what its run is interrupted by. -/
theorem Document.interrupt_of_evaluateTo {depth : Nat} {options : Options} {tree : Captured Node}
    {f : Failure} (h : Document.evaluateTo depth options tree log = (.error f, log')) :
    ∃ i w, Eval.runFresh options tree.groups log
        (fun scope => (Recursion.ofDepth depth).visit scope tree.content) = (.error i, w) ∧
      f = i.toFailure := by
  rw [Document.evaluateTo, Logged.run_bind] at h
  split at h
  · cases h
  · rename_i e notes run
    cases h
    unfold Eval.inDocument at run
    rcases o : Eval.runFresh _ _ _ _ with ⟨outcome, w⟩
    rw [o] at run
    cases outcome with
    | ok a => cases run
    | error i =>
      cases run
      exact ⟨i, w, rfl, rfl⟩

/-- A run that comes to an end is an evaluation that does. -/
theorem Document.evaluateTo_of_run {depth : Nat} {options : Options} {tree : Node}
    {nodes : List Node} {w : World}
    (h : Eval.runFresh options #[] log
      (fun scope => (Recursion.ofDepth depth).visit scope tree) = (.ok nodes, w)) :
    Document.evaluateTo depth options { content := tree } log =
      (.ok { content := nodes, groups := w.groups }, w.log) := by
  have inside : Eval.inDocument options #[] (fun scope =>
      (Recursion.ofDepth depth).visit scope tree) log = (.ok (nodes, w.groups), w.log) := by
    unfold Eval.inDocument
    rw [h]
  rw [Document.evaluateTo, Logged.run_bind, inside]
  rfl

/-- A tree that can be laid out. -/
theorem Document.outcome_of_layOut {tree : Captured Node} {laid : Captured (List Node)}
    (h : Document.layOut tree log = (.ok laid, log')) :
    ∃ node, (Layout.layNode .other tree.content).outcome { groups := tree.groups, log } =
      .ok node ∧ laid.content = node.left := by
  unfold Document.layOut at h
  rcases o : (Layout.layNode .other tree.content).run.run _ with ⟨outcome, state⟩
  rw [o] at h
  cases outcome with
  | ok node =>
    cases h
    exact ⟨node, congrArg Prod.fst o, rfl⟩
  | error f => cases h

/-- The content of a document that can be laid out. -/
theorem Document.layAll_of_layOut {info : Info} {children : List Node} {groups : Groups}
    {laid : Captured (List Node)}
    (h : Document.layOut { content := .plain info .root children, groups } log =
      (.ok laid, log')) :
    ∃ nodes, (Layout.layAll .root children).outcome { groups, log } = .ok nodes ∧
      laid.content = [.plain info .root nodes] := by
  obtain ⟨node, outcome, left⟩ := Document.outcome_of_layOut h
  rw [Layout.outcome_layNode_root] at outcome
  cases o : (Layout.layAll .root children).outcome { groups, log } with
  | error e =>
    rw [o] at outcome
    cases outcome
  | ok nodes =>
    rw [o] at outcome
    cases outcome
    exact ⟨nodes, rfl, left⟩

/-- A document whose content can be laid out. -/
theorem Document.layOut_of_layAll {info : Info} {children nodes : List Node} {groups : Groups}
    (h : (Layout.layAll .root children).outcome { groups, log } = .ok nodes) :
    ∃ groups' notes, Document.layOut { content := .plain info .root children, groups } log =
      (.ok { content := [.plain info .root nodes], groups := groups' }, notes) := by
  have outcome : (Layout.layNode .other (.plain info .root children)).outcome { groups, log } =
      .ok (Layout.finish .other info .root nodes) := by
    rw [Layout.outcome_layNode_root, h]
    rfl
  rcases e : (Layout.layNode .other (.plain info .root children)).run.run { groups, log } with
    ⟨outcome', state⟩
  have same : outcome' = .ok (Layout.finish .other info .root nodes) := by
    rw [← outcome, Layout.Lay.outcome, e]
  unfold Document.layOut
  rw [e, same]
  exact ⟨_, _, rfl⟩

/-- What the flat form of a tree has gone through. -/
theorem Document.stages_of_flatTo {depth : Nat} {o : Options} {tree : Node} {nodes : List Node}
    (h : Document.flatTo depth o tree log = (.ok nodes, log')) :
    ∃ evaluated notes,
      Document.evaluateTo depth o { content := tree } log = (.ok evaluated, notes) ∧
        ∀ root, evaluated.content = [root] → ∃ laid,
          Document.layOut { content := root, groups := evaluated.groups } notes =
            (.ok laid, log') ∧ nodes = laid.content := by
  obtain ⟨evaluated, notes, run, rest⟩ := Logged.bind_eq_ok h
  refine ⟨evaluated, notes, run, fun root content => ?_⟩
  rw [content] at rest
  obtain ⟨laid, notes', layout, done⟩ := Logged.bind_eq_ok rest
  cases done
  exact ⟨laid, layout, rfl⟩

/-- A document that can be evaluated and laid out has a flat form. -/
theorem Document.flatTo_of_stages {depth : Nat} {o : Options} {tree : Node} {info : Info}
    {children left : List Node} {w : World}
    (run : Eval.runFresh o #[] log (fun scope => (Recursion.ofDepth depth).visit scope tree) =
      (.ok [.plain info .root children], w))
    (lays : (Layout.layAll .root children).outcome { groups := w.groups, log := w.log } =
      .ok left) :
    ∃ notes, Document.flatTo depth o tree log = (.ok [.plain info .root left], notes) := by
  obtain ⟨groups, notes, laid⟩ := @Document.layOut_of_layAll w.log info children left w.groups lays
  refine ⟨notes, ?_⟩
  rw [Document.flatTo, Logged.run_bind, Document.evaluateTo_of_run run]
  dsimp only
  rw [Logged.run_bind, laid]
  rfl

/-- A document whose nesting is right and that can be evaluated and laid out is compiled. -/
theorem Document.cssTo_of_stages {depth : Nat} {o : Options} {cs children left : List Node}
    {w : World} (right : Nesting.check (.plain {} .root cs) = .ok ())
    (run : Eval.runFresh o #[] log (fun scope =>
        (Recursion.ofDepth depth).visit scope (.plain {} .root cs)) =
      (.ok [.plain {} .root children], w))
    (lays : ∀ s : Layout.State, s.groups = w.groups →
      (Layout.layAll .root children).outcome s = .ok left) :
    (Document.cssTo depth o (.plain {} .root cs) log).1 = .ok (Css.renderChildren o left) := by
  have checks : Document.checked (.plain {} .root cs) log = (.ok (.plain {} .root cs), log) := by
    unfold Document.checked
    rw [right]
    rfl
  obtain ⟨notes, flat⟩ := Document.flatTo_of_stages run (lays _ rfl)
  rw [Document.cssTo, Logged.run_bind, checks]
  dsimp only
  rw [Logged.run_bind, flat]
  rfl

/-! ### Failures -/

section

variable {stops : Failure → Prop}

/-- A stage that, if it fails, fails in some way. -/
def Logged.Stops (stops : Failure → Prop) (x : Logged α) : Prop :=
  ∀ log, Ends stops (x log).1 fun _ => True

namespace Logged.Stops

/-- A stage that does nothing comes to an end. -/
theorem pure (a : α) : Logged.Stops stops (Pure.pure a) :=
  fun _ => .done

/-- A stage that only notes something comes to an end. -/
theorem note (level : Level) (stage : Stage) (text : String) :
    Logged.Stops stops (Stylesheet.note level stage text) :=
  fun _ => .done

/-- A stage may fail as it is allowed to. -/
theorem throw {f : Failure} (h : stops f) :
    Logged.Stops stops (MonadExcept.throw f : Logged α) :=
  fun _ => .error h

/-- More failures may be allowed. -/
theorem mono {x : Logged α} {stops' : Failure → Prop} (hx : x.Stops stops)
    (h : ∀ f, stops f → stops' f) : x.Stops stops' := by
  intro log
  have ends := hx log
  generalize (x log).1 = o at ends
  cases ends with
  | ok => exact .done
  | error hf => exact .error (h _ hf)

/-- What follows a stage may use that the stage has come to an end. -/
theorem bind {x : Logged α} {f : α → Logged β} (hx : x.Stops stops)
    (hf : ∀ a log log', x log = (.ok a, log') → (f a).Stops stops) : (x >>= f).Stops stops := by
  intro log
  have ends := hx log
  rw [Logged.run_bind]
  rcases e : x log with ⟨o, log'⟩
  rw [e] at ends
  cases ends with
  | ok => exact hf _ log log' e log'
  | error h => exact .error h

end Logged.Stops

/-- The notes about the options do not fail. -/
theorem Options.stops_note (o : Options) : o.note.Stops stops := by
  unfold Options.note
  induction o.warnings with
  | nil => exact .pure ()
  | cons w ws ih => exact .bind (.note _ _ _) fun _ _ _ _ => ih

/-- A text is refused by the grammar or for its indentation. -/
theorem Document.stops_readIn (inputSyntax : Syntax) {file text : String}
    (grammar : ∀ braces d, Document.parse file braces = .error d → stops (.diagnostic d))
    (indentation : ∀ d, Indentation.outcome file (Text.splitLines text.toList) = .error d →
      stops (.diagnostic d)) :
    (Document.readIn inputSyntax file text).Stops stops := by
  have read (braces : String) : (Document.read file braces).Stops stops := by
    unfold Document.read
    split
    · exact .bind (.note _ _ _) fun _ _ _ _ => .pure _
    · rename_i d refused
      exact .throw (grammar braces d refused)
  cases inputSyntax with
  | braces => exact read text
  | indented =>
    refine .bind (f := fun text => Document.read file text) ?_ fun braces _ _ _ => read braces
    unfold Indentation.toBraces
    split
    · rename_i d refused
      exact .throw (indentation d refused)
    · exact .bind (.note _ _ _) fun _ _ _ _ => .pure _

/-- A tree is refused for its nesting, by the evaluation or by the layout. -/
theorem Document.stops_cssTo {depth : Nat} {o : Options} {tree : Node}
    (nesting : ∀ d, Nesting.check tree = .error d → stops (.diagnostic d))
    (evaluation : Nesting.check tree = .ok () →
      (Document.evaluateTo depth o { content := tree }).Stops stops)
    (layout : ∀ evaluated log log',
      Document.evaluateTo depth o { content := tree } log = (.ok evaluated, log') →
        ∀ root ∈ evaluated.content, (Layout.layNode .other root).Stops stops) :
    (Document.cssTo depth o tree).Stops stops := by
  unfold Document.cssTo Document.checked
  cases right : Nesting.check tree with
  | error d => exact .bind (.throw (nesting d right)) fun _ _ _ h => by cases h
  | ok =>
    refine .bind (.pure _) fun tree' log log' h => ?_
    cases h
    refine .bind ?_ fun _ _ _ _ => .pure _
    refine .bind (evaluation right) fun evaluated notes notes' run => ?_
    split
    · rename_i root content
      have inside := layout evaluated notes notes' run root (by simp [content])
      exact .bind (fun _ => Document.ends_layOut inside) fun _ _ _ _ => .pure _
    · exact .pure _

/-- **A compilation fails as its stages do.** -/
theorem stops_compile {o : Options} {text : String}
    (read : (Document.readIn o.inputSyntax o.file text).Stops stops)
    (css : ∀ tree log log', Document.readIn o.inputSyntax o.file text log = (.ok tree, log') →
      (Document.cssTo Evaluation.depth o tree).Stops stops) :
    (compile o text).Stops stops := by
  refine .bind o.stops_note fun _ _ _ _ => .bind read fun tree log log' e => ?_
  exact .bind (css tree log log' e) fun _ _ _ _ => .bind (.note _ _ _) fun _ _ _ _ => .pure _

end

end Stylesheet
