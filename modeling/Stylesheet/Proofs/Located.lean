/-
# The places of diagnostics

Whatever a style sheet is refused with is on a line of its file, and a diagnostic of an
evaluation is on the line of the innermost node that was being visited when it was raised
(`diagnostics_located`).
-/

import Stylesheet.Nesting
import Stylesheet.Proofs.Evaluation.Watched
import Stylesheet.Proofs.Grammar.Bare
import Stylesheet.Proofs.Grammar.Located

namespace Stylesheet

/-! ### Nesting -/

namespace Nesting

variable {stops : Diagnostic → Prop}

/-- A node is refused for its place where it stands. -/
theorem ends_checkPlace (around : List Kind) (n : Node)
    (h : ∀ cause, stops { cause, span := n.info.span }) :
    Ends stops (checkPlace around n) fun _ => True := by
  unfold checkPlace
  split
  · exact .done
  · split
    · exact .done
    · exact .error (h _)

mutual

/-- A tree is refused for its nesting at a node. -/
theorem ends_checkIn (around : List Kind) (n : Node)
    (h : ∀ m ∈ n.nodes, ∀ cause, stops { cause, span := m.info.span }) :
    Ends stops (checkIn around n) fun _ => True := by
  match n with
  | .plain i head cs =>
    rw [Node.nodes, List.forall_mem_cons] at h
    rw [checkIn]
    exact (ends_checkPlace around _ h.1).after fun _ => ends_checkAll _ cs h.2
  | .cond i t cs o =>
    rw [Node.nodes, List.forall_mem_cons, List.forall_mem_append] at h
    rw [checkIn]
    exact (ends_checkPlace around _ h.1).after fun _ =>
      (ends_checkAll _ cs h.2.1).after fun _ => ends_checkOption _ o h.2.2

/-- Some nodes are refused for their nesting at one in them. -/
theorem ends_checkAll (around : List Kind) (ns : List Node)
    (h : ∀ m ∈ Node.nodesAll ns, ∀ cause, stops { cause, span := m.info.span }) :
    Ends stops (checkAll around ns) fun _ => True := by
  match ns with
  | [] => exact .done
  | n :: ns =>
    rw [Node.nodesAll, List.forall_mem_append] at h
    rw [checkAll]
    exact (ends_checkIn around n h.1).after fun _ => ends_checkAll around ns h.2

/-- A clause is refused for its nesting at a node in it. -/
theorem ends_checkOption (around : List Kind) (o : Option Node)
    (h : ∀ m ∈ Node.nodesOption o, ∀ cause, stops { cause, span := m.info.span }) :
    Ends stops (checkOption around o) fun _ => True := by
  match o with
  | none => exact .done
  | some n => exact ends_checkIn around n h

end

/-- A document whose content is on the lines of a file is refused on one of them. -/
theorem ends_check {file : String} (info : Info) {cs : List Node} (inside : ∀ n ∈ cs, n.In file) :
    Ends (fun d => d.span.In file) (check (.plain info .root cs)) fun _ => True :=
  ends_checkAll [.root] cs fun m hm _ => Node.forall_nodesAll.2 inside m hm

end Nesting

/-! ### Evaluation and layout -/

namespace Document

variable {file : String} (options : Options) (info : Info) {cs : List Node} {log : Log}

/-- An evaluation that fails, watched. -/
theorem error_watched (fresh : Node.freshAll true cs) (depth : Nat) {f : Failure}
    (h : (evaluateTo depth options { content := .plain info .root cs } log).1 = .error f) :
    (evaluateBy (.watched depth) options { content := .plain info .root cs } log).1 =
      .error f := by
  have same := content_watched options info #[] fresh depth log
  rw [h] at same
  cases e : (evaluateBy (.watched depth) options { content := .plain info .root cs } log).1 with
  | ok evaluated =>
    rw [e] at same
    cases same
  | error f' =>
    rw [e] at same
    cases same
    rfl

/-- An evaluation of a document on the lines of a file fails on one of them, or what comes
out is on them. -/
theorem ends_evaluateTo (fresh : Node.freshAll true cs) (inside : ∀ m ∈ cs, m.In file)
    (depth : Nat) (log : Log) :
    Ends (Failure.In file) (evaluateTo depth options { content := .plain info .root cs } log).1
      fun e => ∃ cs', e.content = [.plain info.apart .root cs'] ∧ ∀ m ∈ cs', m.In file := by
  have same := content_watched options info #[] fresh depth log
  have ends := ends_watched options info #[] inside depth log
  generalize (evaluateTo depth options { content := .plain info .root cs } log).1 = x at same
  generalize (evaluateBy (.watched depth) options { content := .plain info .root cs } log).1 = y
    at same ends
  cases ends with
  | ok h =>
    cases x with
    | error f => cases same
    | ok e =>
      obtain ⟨cs', content, made⟩ := h
      exact .ok ⟨cs', (Except.ok.inj same).symm.trans content, made⟩
  | error h =>
    cases x with
    | ok e => cases same
    | error _ =>
      cases same
      rename_i f
      cases f with
      | diagnostic d => exact .error h.1
      | _ => exact .error trivial

/-- The CSS of a document on the lines of a file. -/
theorem stops_cssTo_in (fresh : Node.freshAll true cs) (inside : ∀ m ∈ cs, m.In file)
    (depth : Nat) :
    (cssTo depth options (.plain info .root cs)).Stops (Failure.In file) := by
  refine stops_cssTo (fun d refused => ?_) (fun _ => fun log => ?_)
    fun evaluated log log' run root content => ?_
  · have ends := Nesting.ends_check info inside
    rw [refused] at ends
    cases ends with
    | error h => exact h
  · exact (ends_evaluateTo options info fresh inside depth log).any
  · have ends := ends_evaluateTo options info fresh inside depth log
    rw [run] at ends
    cases ends with
    | ok h =>
      obtain ⟨cs', e, made⟩ := h
      rw [e, List.mem_singleton] at content
      subst content
      exact Layout.stops_layDocument fun m hm _ => Node.forall_nodesAll.2 made m hm

end Document

/-- **Every diagnostic is located, at the innermost node.**  Whatever a style sheet in a file
with a name is refused with is on a line of that file.  And if it is the evaluation that
fails, the evaluation with its visits watched fails with the same diagnostic, which is on the
line of the innermost visit that was under way, be it in the body of a function that was
called or of a mixin that was included. -/
theorem diagnostics_located (o : Options) (text : String) (named : o.file ≠ "") :
    (∀ d log log', compile o text log = (.error (.diagnostic d), log') →
      d.span.file = o.file ∧ 1 ≤ d.span.line) ∧
      ∀ tree before after,
        Document.readIn o.inputSyntax o.file text before = (.ok tree, after) →
          ∀ depth log d,
            (Document.evaluateTo depth o { content := tree } log).1 = .error (.diagnostic d) →
              ∃ log', Document.evaluateBy (.watched depth) o { content := tree } log =
                  (.error (.diagnostic d), log') ∧
                log'.underWay.head? = some (toString d.span.line) := by
  refine ⟨fun d log log' h => ?_, fun tree before after read depth log d h => ?_⟩
  · have ends := stops_compile (Document.stops_readIn_in named o.inputSyntax text)
      (fun tree log log' read => ?_) log
    · rw [h] at ends
      cases ends with
      | error located => exact located
    · obtain ⟨cs, rfl, fresh⟩ := Document.bare_of_readIn read
      obtain ⟨cs', e, inside⟩ := Document.in_of_readIn named read
      cases e
      exact Document.stops_cssTo_in _ _ fresh inside _
  · obtain ⟨cs, rfl, fresh⟩ := Document.bare_of_readIn read
    obtain ⟨cs', e, inside⟩ := Document.in_of_readIn named read
    cases e
    have fails := Document.error_watched _ _ fresh depth h
    have ends := Document.ends_watched o {} #[] inside depth log
    rw [fails] at ends
    cases ends with
    | error located => exact ⟨_, Prod.ext fails rfl, located.2⟩

/-- A function that is called in the body of a mixin: what is wrong is on its second line. -/
theorem diagnostics_located_in_function :
    let o : Options := { file := "s" }
    let text := "@function f($x)\x7b\n@return $x + $y;\x7d\n@mixin m\x7b\na: f(1);\x7d\n.b\x7b@include m;\x7d"
    let d : Diagnostic :=
      { cause := .undefinedVariable "y", span := { file := "s", line := 2 } }
    (d.span.file = o.file ∧ 1 ≤ d.span.line) ∧
      ∃ tree after log', Document.readIn .braces "s" text #[] = (.ok tree, after) ∧
        Document.evaluateBy (.watched 20) o { content := tree } after =
            (.error (.diagnostic d), log') ∧
          log'.underWay.head? = some "2" := by
  intro o text d
  obtain ⟨located, innermost⟩ := diagnostics_located o text (by decide)
  have refused : (compile o text #[]).1 = .error (.diagnostic d) := by decide +kernel
  rcases run : compile o text #[] with ⟨outcome, log⟩
  rw [run] at refused
  refine ⟨located d #[] log (run.trans (congrArg (·, log) refused)), ?_⟩
  have reads : (Document.readIn .braces "s" text #[]).1.isOk = true := by decide +kernel
  have fails : ((Document.readIn .braces "s" text >>= fun tree =>
      Document.evaluateTo 20 o { content := tree }) #[]).1.map (fun _ => ()) =
        .error (.diagnostic d) := by decide +kernel
  rw [Logged.run_bind] at fails
  rcases read : Document.readIn .braces "s" text #[] with ⟨parsed, after⟩
  rw [read] at reads fails
  cases parsed with
  | error f => cases reads
  | ok tree =>
    dsimp only at fails
    cases e : (Document.evaluateTo 20 o { content := tree } after).1 with
    | ok evaluated =>
      rw [e] at fails
      cases fails
    | error f =>
      rw [e] at fails
      cases fails
      obtain ⟨log', watched, here⟩ := innermost tree #[] after read 20 after d e
      exact ⟨tree, after, log', rfl, watched, here⟩

end Stylesheet
