/-
# Watching the visits of an evaluation

A watched evaluation leaves a note where the visit of a node starts, with the line of the
node, and one where it ends; a visit that fails does not end (`Eval.watch`).  So its notes
tell at any moment which visits are under way (`Log.underWay`), also those in the bodies of
functions that are called and of mixins that are included, and when it has failed they are
the visits that were under way when the failure was raised.

Nothing but the notes is changed by watching (`Document.content_watched`).  What is shown
of it is that the place of a failure is on the line of the innermost visit that is under way
(`Recursion.keeps_watched`): a failure is raised without a place, gets the place of the visit
that it leaves first, and keeps it.
-/

import Stylesheet.Proofs.Evaluation.Contract
import Stylesheet.Proofs.Evaluation.Visits
import Stylesheet.Proofs.Node.Located
import Stylesheet.Proofs.Scope.Inserted
import Stylesheet.Proofs.Stages

namespace Stylesheet

namespace Eval

/-- Notes that a visit ends. -/
def noteEnd : Eval Unit :=
  Eval.note .info .evaluation ""

/-- The visit of a node, with notes where it starts and where it ends; one that fails does
not end. -/
def watch (n : Node) (x : Eval (List Node)) : Eval (List Node) := do
  Eval.note .info .evaluation (toString n.info.span.line)
  let nodes ← tryCatch x fun
    | .result v => do
      noteEnd
      throw (.result v)
    | i => throw i
  noteEnd
  return nodes

end Eval

/-- The evaluators with a bound on the depth of their calls, with their visits watched. -/
def Recursion.watched : Nat → Recursion
  | 0 => Recursion.ofDepth 0
  | n + 1 =>
    { rounds := n
      eval := fun scope e => Evaluation.evalExpr (Recursion.watched n) scope e
      visit := fun scope node =>
        Eval.watch node (Evaluation.visitNode (Recursion.watched n) scope node) }

/-- The nodes that a tree becomes in a fresh scope, evaluated by some evaluators. -/
def Document.evaluateBy (r : Recursion) (options : Options) (tree : Captured Node) :
    Logged (Captured (List Node)) := do
  let (content, groups) ←
    Eval.inDocument options tree.groups fun scope => r.visit scope tree.content
  return { content, groups }

/-- The visits that are under way after a note, by the lines of their nodes. -/
def Note.follow (visits : List String) (n : Note) : List String :=
  if n.level = .info ∧ n.stage = .evaluation then
    if n.text.isEmpty then visits.tail else n.text :: visits
  else visits

/-- The visits that are under way, by the lines of their nodes, innermost first. -/
def Log.underWay (log : Log) : List String :=
  log.toList.foldl Note.follow []

@[simp] theorem Log.underWay_push (log : Log) (n : Note) :
    Log.underWay (log.push n) = n.follow log.underWay := by
  simp [underWay]

/-- The text of an integer is never empty. -/
theorem Int.toString_ne_empty (i : Int) : toString i ≠ "" := by
  cases i with
  | ofNat n => exact Nat.repr_ne_empty
  | negSucc n =>
    intro h
    simpa using congrArg String.length (show "-" ++ Nat.repr (n + 1) = "" from h)

namespace Eval

variable {w : World} {n : Node}

/-- The world where the visit of a node has started. -/
abbrev begun (n : Node) (w : World) : World :=
  (Eval.note .info .evaluation (toString n.info.span.line)).after w

/-- When the visit of a node has started, it is the innermost under way. -/
theorem underWay_begun :
    (begun n w).log.underWay = toString n.info.span.line :: w.log.underWay := by
  rw [begun, after_note, Log.underWay_push, Note.follow, if_pos ⟨rfl, rfl⟩, if_neg]
  simpa [String.isEmpty_iff] using Int.toString_ne_empty n.info.span.line

/-- When a visit has ended, it is no longer under way. -/
theorem underWay_noteEnd : (noteEnd.after w).log.underWay = w.log.underWay.tail := by
  rw [noteEnd, after_note, Log.underWay_push]
  rfl

/-- How the visit of a node is watched. -/
theorem run_watch (n : Node) (x : Eval (List Node)) (w : World) :
    (watch n x).run.run w = match x.outcome (begun n w) with
      | .ok nodes => (.ok nodes, noteEnd.after (x.after (begun n w)))
      | .error (.result v) => (.error (.result v), noteEnd.after (x.after (begun n w)))
      | .error i => (.error i, x.after (begun n w)) := by
  rw [watch, run_bind, outcome_note]
  show (tryCatch x _ >>= _ : Eval (List Node)).run.run (begun n w) = _
  generalize begun n w = v
  simp only [run_bind, outcome, after, run_tryCatch]
  generalize x.run.run v = r
  obtain ⟨o, w'⟩ := r
  cases o with
  | ok nodes => rfl
  | error i => cases i <;> rfl

end Eval

/-! ### Watching changes nothing -/

/-- A visit that is watched and one that is not. -/
theorem Eval.Matches.watch {R : Renaming} {first second : Prop}
    {fits : List Node → List Node → Prop} {x y : Eval (List Node)} (n : Node)
    (h : Matches R first second fits x y) : Matches R first second fits (Eval.watch n x) y := by
  intro w v worlds
  have ends := h (Eval.begun n w) v ⟨worlds.scopes, worlds.groups⟩
  rw [run_watch]
  rw [run_eq, run_eq] at ends
  rw [run_eq y]
  generalize x.outcome (Eval.begun n w) = o at ends
  generalize y.outcome v = p at ends
  cases ends with
  | ok fit worlds' => exact .ok fit ⟨worlds'.scopes, worlds'.groups⟩
  | error worlds' =>
    rename_i i
    cases i with
    | result => exact .error ⟨worlds'.scopes, worlds'.groups⟩
    | failure => exact .error worlds'
    | exhausted => exact .error worlds'
  | early h => exact .early h
  | late h => exact .late h

/-- **Watched evaluations are in lockstep with those that are not.** -/
theorem Recursion.lockstep_watched (R : Renaming) (n : Nat) :
    (watched n).Lockstep R False False (ofDepth n) := by
  induction n with
  | zero => exact lockstep_ofDepth R 0 0 nofun nofun
  | succ n ih =>
    exact ⟨fun h => Nat.lt_irrefl n h, fun h => Nat.lt_irrefl n h,
      fun _ _ e pair => ih.evalExpr pair e,
      fun _ _ m visits fresh => (ih.visitNode visits fresh).watch m⟩

/-! ### Where failures are -/

/-- Whether a failure, if it is a diagnostic, is on a line of a file, which is that of the
first of some visits. -/
def Failure.At (file : String) (visits : List String) : Failure → Prop
  | .diagnostic d => d.span.In file ∧ visits.head? = some (toString d.span.line)
  | _ => True

/-- A failure that has its place keeps it. -/
theorem Failure.At.locate {file : String} {visits : List String} {f : Failure}
    (h : f.At file visits) (span : Span) : (f.locate span).At file visits := by
  cases f with
  | diagnostic d =>
    rw [Failure.locate, Diagnostic.locate_of_known (Span.known_of_in h.1)]
    exact h
  | _ => trivial

namespace Contract

variable {file : String} {visits : List String}

/-- The contract of an evaluation on the lines of a file, during some visits. -/
def watching (file : String) (visits : List String) : Contract Unit where
  visited _ n := n.In file
  mixin := ()
  function := ()
  results _ := True
  selector _ := True
  made n := n.In file
  noted log := log.underWay = visits
  placed f log := f.At file log.underWay

/-- What an evaluation does on the lines of a file keeps to the contract. -/
theorem lawful_watching : (watching file visits).Lawful where
  inside visited _ := (Node.in_plain.1 visited).2
  clause visited := (Node.in_cond.1 visited).2
  ofMixin visited := (Node.in_plain.1 visited).2
  ofFunction visited := (Node.in_plain.1 visited).2
  ofResult _ := trivial
  ofInclusion _ _ := trivial
  resolve _ _ := trivial
  leaf visited _ _ := Node.in_plain.2 ⟨(Node.in_plain.1 visited).1, (Node.in_plain.1 visited).2⟩
  block := by
    intro k info info' head head' cs cs' visited _ _ place _ inside
    have same : info'.apart.span = info.apart.span := congrArg Info.span place
    have here : info.apart.span.In file := (Node.in_plain.1 visited).1
    exact Node.in_plain.2 ⟨(same ▸ here : info'.apart.span.In file), inside⟩
  note := by
    intro log n other noted
    show Log.underWay (log.push n) = visits
    rw [Log.underWay_push, Note.follow, if_neg fun h => other h.1]
    exact noted

/-- A failure that leaves the innermost visit gets its place there. -/
theorem locates_watching {n : Node} (inside : n.In file) :
    (watching file (toString n.info.span.line :: visits)).Locates n := by
  rintro f log (⟨raised, noted⟩ | placed)
  · cases raised with
    | cause c =>
      have known : 0 < n.info.span.line := inside.here.2
      have located : (Failure.ofCause c).locate n.info.span =
          .diagnostic { cause := c, span := n.info.span } := by
        simp [Failure.ofCause, Failure.locate, Diagnostic.locate, known, Span.known]
      rw [located]
      exact ⟨inside.here, congrArg List.head? noted⟩
    | _ => trivial
  · exact placed.locate _

end Contract

section

open Eval Evaluation

variable {file : String} {visits : List String} {base : Nat}

/-- The course of a visit during some other visits. -/
abbrev Course.during (file : String) (visits : List String) (base : Nat) :=
  (Contract.watching file visits).course base ((Contract.watching file visits).Outside ())

/-- A visit that keeps to the contract during itself keeps, watched, to that of the visits
around it. -/
theorem Eval.Follows.watch {n : Node} {x : Eval (List Node)} {fits : List Node → Prop}
    (hx : Follows (.during file (toString n.info.span.line :: visits) base) x (Past fits)) :
    Follows (.during file visits base) (Eval.watch n x) (Past fits) := by
  rintro w ⟨met, noted⟩
  have inner : (begun n w).log.underWay = toString n.info.span.line :: visits :=
    underWay_begun.trans (congrArg _ noted)
  have ended (h : (x.after (begun n w)).log.underWay = toString n.info.span.line :: visits) :
      (noteEnd.after (x.after (begun n w))).log.underWay = visits := by
    rw [underWay_noteEnd, h, List.tail_cons]
  -- what is known of the scopes and the groups does not depend on the visits
  have met' : (Contract.watching file (toString n.info.span.line :: visits)).Met base (begun n w) :=
    ⟨⟨met.scopes.mixins, met.scopes.functions, met.scopes.selectors⟩, met.groups⟩
  rw [Takes, Eval.outcome, Eval.after, run_watch]
  rcases (hx (begun n w) ⟨met', inner⟩).ended with
    ⟨ms, _, e, ⟨⟨scopes, groups⟩, h⟩, -, rfl, fit⟩ | ⟨i, e, ⟨scopes, groups⟩, h⟩
  · rw [e]
    exact .ok ⟨⟨⟨⟨scopes.mixins, scopes.functions, scopes.selectors⟩, groups⟩, ended h⟩, ms,
      trivial, rfl, fit⟩
  · rw [e]
    have known : (Contract.watching file visits).Met base (x.after (begun n w)) :=
      ⟨⟨scopes.mixins, scopes.functions, scopes.selectors⟩, groups⟩
    cases i with
    | failure f => exact .error ⟨known, h⟩
    | result v => exact .error ⟨⟨known.scopes, known.groups⟩, trivial, ended h.2⟩
    | exhausted => exact .error ⟨known, trivial⟩

/-- **Watched evaluators keep to the contract**, whatever visits are under way. -/
theorem Recursion.keeps_watched (n : Nat) (visits : List String) :
    (watched n).Keeps (.watching file visits) base := by
  induction n generalizing visits with
  | zero =>
    exact ⟨fun _ _ _ => .throw fun _ hw => ⟨hw.1, trivial⟩,
      fun _ _ _ _ => .throw fun _ hw => ⟨hw.1, trivial⟩⟩
  | succ n ih =>
    refine ⟨fun _ _ => follows_evalExpr (Contract.lawful_conduct Contract.lawful_watching) (ih _),
      fun i _ m inside => .watch ?_⟩
    exact follows_visitNode (k := ()) (Contract.lawful_conduct Contract.lawful_watching) (ih _)
      inside (Contract.leaves_conduct (Contract.locates_watching inside) i)

/-- The visit of a document whose content is on the lines of a file. -/
theorem Evaluation.keeps_document (visits : List String) (n : Nat) {i : ScopeId} {info : Info}
    {cs : List Node} (inside : ∀ m ∈ cs, m.In file) :
    Follows (.during file visits base) ((Recursion.watched (n + 1)).visit i (.plain info .root cs))
      (Past fun ms => ∃ cs', ms = [.plain info.apart .root cs'] ∧ ∀ m ∈ cs', m.In file) := by
  refine .watch (.locate (c := .during file (_ :: visits) base) (fun w hw => ?_) ?_)
  · have body : Takes (.during file _ base) w (visitBody (Recursion.watched n) i cs) _ :=
      takes_visitBody (k := ()) (Contract.lawful_conduct Contract.lawful_watching)
        (Recursion.keeps_watched n _) inside (Contract.opens_course hw i false fun _ _ => id)
    exact body.finish fun children _ w' hw' _ ⟨_, given⟩ =>
      ⟨_, _, rfl, hw', trivial, rfl, children, rfl, given.forall fun _ _ => id⟩
  · exact ⟨id, fun h => ⟨h.1, h.2.locate _⟩, id, id⟩

end

namespace Document

variable (options : Options) (info : Info) (groups : Groups) {cs : List Node}

/-- A document is evaluated by running the visit of its root from the start. -/
theorem evaluateBy_eq (r : Recursion) (tree : Captured Node) (log : Log) :
    evaluateBy r options tree log =
      match Eval.runFresh options tree.groups log fun scope => r.visit scope tree.content with
      | (.ok content, w) => (.ok { content, groups := w.groups }, w.log)
      | (.error i, w) => (.error i.toFailure, w.log) := by
  rw [evaluateBy, Logged.run_bind]
  unfold Eval.inDocument
  rcases Eval.runFresh options tree.groups log _ with ⟨outcome, w⟩
  cases outcome <;> rfl

/-- **A watched evaluation comes to what the evaluation comes to**, or fails as it does. -/
theorem content_watched (fresh : Node.freshAll true cs) (depth : Nat) (log : Log) :
    (evaluateBy (.watched depth) options { content := .plain info .root cs, groups } log).1.map
        Captured.content =
      (evaluateTo depth options { content := .plain info .root cs, groups } log).1.map
        Captured.content := by
  have some' : 0 < (Evaluation.start options groups log).2.scopes.all.size := Nat.one_pos
  have start : (Evaluation.start options groups log).2.Renamed (.same fun _ => false)
      (Evaluation.start options groups log).2 := by
    refine ⟨Scopes.renamed_same some' (fun i name d h => ?_) _, fun _ => rfl⟩
    rw [show (Evaluation.start options groups log).2.scopes =
      (Evaluation.start options #[] log).2.scopes from rfl,
      Evaluation.start_field (·.mixins) fun _ _ _ => rfl,
      Evaluation.start_field (·.functions) fun _ _ _ => rfl] at h
    rcases h with h | h <;> cases h
  have lock : Eval.Matched (World.Renamed (.same fun _ => false)) False False Eq
      (Eval.runFresh options groups log fun scope =>
        (Recursion.watched depth).visit scope (.plain info .root cs))
      (Eval.runFresh options groups log fun scope =>
        (Recursion.ofDepth depth).visit scope (.plain info .root cs)) := by
    cases depth with
    | zero => exact .error start
    | succ n =>
      have body := (Recursion.lockstep_watched (.same fun _ => false) n).visitBody fresh
        (i := 0) (.inl rfl)
      refine (Eval.Matches.locate _ (body.bind fun a b same => .pure ?_)).watch _ _ _ start
      have e : Node.renamedAll id (fun _ => false) a = Node.renamedAll id (fun _ => false) b :=
        same
      rw [Node.renamedAll_id, Node.renamedAll_id] at e
      rw [e]
  rw [evaluateBy_eq, show evaluateTo depth options _ log =
    evaluateBy (.ofDepth depth) options _ log from rfl, evaluateBy_eq]
  dsimp only
  generalize Eval.runFresh options groups log _ = p at lock ⊢
  generalize Eval.runFresh options groups log _ = q at lock ⊢
  cases lock with
  | ok same => exact congrArg Except.ok same
  | error => rfl
  | early never => exact never.elim
  | late never => exact never.elim

/-- A watched evaluation of a document whose content is on the lines of a file: a diagnostic
is on the line of the innermost visit that is under way, and what comes out is on the lines
of the file. -/
theorem ends_watched {file : String} (inside : ∀ m ∈ cs, m.In file) (depth : Nat) (log : Log) :
    Ends (fun f => f.At file (Log.underWay
        (evaluateBy (.watched depth) options { content := .plain info .root cs, groups } log).2))
      (evaluateBy (.watched depth) options { content := .plain info .root cs, groups } log).1
      fun e => ∃ cs', e.content = [.plain info.apart .root cs'] ∧ ∀ m ∈ cs', m.In file := by
  rw [evaluateBy_eq]
  unfold Eval.runFresh
  dsimp only
  cases depth with
  | zero => exact .error trivial
  | succ n =>
    have start := Contract.met_start (.watching file log.underWay) options groups log
    obtain ⟨-, ends⟩ := Contract.ends_visit (k := ())
      (Evaluation.keeps_document log.underWay n inside _ ⟨start, rfl⟩)
    rw [Eval.run_eq]
    generalize Eval.outcome _ _ = o at ends ⊢
    cases ends with
    | ok h =>
      obtain ⟨⟨cs', rfl, made⟩, -⟩ := h
      exact .ok ⟨cs', rfl, made⟩
    | error h =>
      rename_i i
      cases i with
      | failure f => exact .error h
      | result v => exact .error trivial
      | exhausted => exact .error trivial

end Document

end Stylesheet
