/-
# Capturing and flushing at once

A document in which some rules, queries and conditions are captured in a buffer and flushed
right after it comes to the same CSS as the document without the buffer and the flush, if
nothing else in it is captured or flushed under the name of the buffer
(`Document.css_captureFlush`).

The statements of both documents are evaluated one beside the other
(`Evaluation.ended_visitAll`), and the trees that they come to are laid out one beside the
other (`Layout.together_capturedIn`).
-/

import Stylesheet.Proofs.BufferOrder
import Stylesheet.Proofs.Grammar.Bare
import Stylesheet.Proofs.Layout.AtOnce
import Stylesheet.Proofs.Nesting

namespace Stylesheet

open BufferStep (closed)

namespace Eval.Ended

variable {α β : Type} {first second : Prop} {fits : α → β → Prop}

/-- A weaker relation holds of two results. -/
theorem mono {fits' : α → β → Prop} {p : Except Interrupt α} {q : Except Interrupt β}
    (h : Ended first second fits p q)
    (fit : ∀ a b, p = .ok a → q = .ok b → fits a b → fits' a b) :
    Ended first second fits' p q := by
  cases h with
  | ok fits => exact .ok (fit _ _ rfl rfl fits)
  | error => exact .error
  | early h => exact .early h
  | late h => exact .late h

/-- If the second evaluation is allowed enough depth, it ends as the first one does. -/
theorem exists_right {a : α} {q : Except Interrupt β} (h : Ended first False fits (.ok a) q) :
    ∃ b, q = .ok b ∧ fits a b := by
  cases h with
  | ok fit => exact ⟨_, rfl, fit⟩
  | late never => exact never.elim

/-- If the first evaluation is allowed enough depth, it ends as the second one does. -/
theorem exists_left {p : Except Interrupt α} {b : β} (h : Ended False second fits p (.ok b)) :
    ∃ a, p = .ok a ∧ fits a b := by
  cases h with
  | ok fit => exact ⟨_, rfl, fit⟩
  | early never => exact never.elim

end Eval.Ended

namespace Evaluation

open Eval

/-- The world in which the statements of a document are evaluated, in the scope 1. -/
def opened (options : Options) (log : Log) : World :=
  (newBlock (start options #[] log).1).after (start options #[] log).2

/-- A field that no new scope sets is empty at first. -/
theorem opened_field {β : Type} (p : Scope → β)
    (h : ∀ ancestors options owns, p { ancestors, options, ownsBuffers := owns } = p {})
    (options : Options) (log : Log) (i : ScopeId) :
    p ((opened options log).scopes.get i) = p {} := by
  rw [opened, newBlock, after_newScope, Scopes.get_add_field p h, start_field p h]

/-- At first the world is sound. -/
theorem sound_opened (options : Options) (log : Log) : (opened options log).Sound true := by
  have start : (start options #[] log).2.SoundAt true 0 :=
    ⟨sound_start true options log, Nat.one_pos⟩
  exact (start.newScope false).1

/-- Notes make no difference to the world. -/
theorem renamed_opened (options : Options) (log log' : Log) (free : String → Bool) :
    (opened options log).Renamed (.same free) (opened options log') where
  scopes := by
    have some' : 0 < (opened options log).scopes.all.size := Nat.succ_pos 1
    refine Scopes.renamed_same some' (fun i name d h => ?_) free
    rw [opened_field (·.mixins) fun _ _ _ => rfl, opened_field (·.functions) fun _ _ _ => rfl] at h
    rcases h with h | h <;> cases h
  groups _ := rfl

/-- A document comes to what its statements come to. -/
theorem outcome_document {depth : Nat} {options : Options} {log : Log} {cs nodes : List Node} :
    (runFresh options #[] log fun scope =>
        (Recursion.ofDepth (depth + 1)).visit scope (.plain {} .root cs)).1 = .ok nodes ↔
      ∃ children,
        (visitAll (Recursion.ofDepth depth) 1 cs).outcome (opened options log) = .ok children ∧
          nodes = [.plain {} .root children] := by
  have located : (runFresh options #[] log fun scope =>
      (Recursion.ofDepth (depth + 1)).visit scope (.plain {} .root cs)).1 =
        (Eval.locate ({} : Info).span
          (visitBody (Recursion.ofDepth depth) (start options #[] log).1 cs >>=
            fun children => pure [Node.plain {} .root children])).outcome
              (start options #[] log).2 := rfl
  have inside : (visitBody (Recursion.ofDepth depth) (start options #[] log).1 cs).outcome
      (start options #[] log).2 =
        (visitAll (Recursion.ofDepth depth) 1 cs).outcome (opened options log) := by
    rw [visitBody, newBlock, outcome_bind]
    rfl
  rw [located, outcome_locate_eq_ok, outcome_bind, inside]
  cases (visitAll (Recursion.ofDepth depth) 1 cs).outcome (opened options log) with
  | error i => simp
  | ok children => simp [eq_comm]

end Evaluation

/-! ### The stages that a document goes through -/

namespace Document

variable {depth : Nat} {o : Options} {log : Log} {cs children left : List Node} {css : String}

/-- Nothing can be evaluated to a depth of 0. -/
theorem depth_of_run {nodes : List Node} {w : World}
    (run : Eval.runFresh o #[] log (fun scope =>
        (Recursion.ofDepth depth).visit scope (.plain {} .root cs)) = (.ok nodes, w)) :
    ∃ n, depth = n + 1 := by
  cases depth with
  | zero => cases congrArg Prod.fst run
  | succ n => exact ⟨n, rfl⟩

/-- What a document is evaluated to does not depend on the depth that the evaluation is
allowed, as long as it comes to an end. -/
theorem content_of_evaluateTo {depth' : Nat} {log' : Log} {e e' : Captured (List Node)}
    {notes notes' : Log}
    (fresh : Node.freshAll true cs)
    (run : Document.evaluateTo depth o { content := .plain {} .root cs } log = (.ok e, notes))
    (run' : Document.evaluateTo depth' o { content := .plain {} .root cs } log' =
      (.ok e', notes')) :
    e'.content = e.content := by
  obtain ⟨w, run, -⟩ := Document.run_of_evaluateTo run
  obtain ⟨w', run', -⟩ := Document.run_of_evaluateTo run'
  obtain ⟨n, rfl⟩ := depth_of_run run
  obtain ⟨n', rfl⟩ := depth_of_run run'
  obtain ⟨children, visits, content⟩ := Evaluation.outcome_document.1 (congrArg Prod.fst run)
  obtain ⟨children', visits', content'⟩ := Evaluation.outcome_document.1 (congrArg Prod.fst run')
  rw [content, content']
  have lock : Eval.Matched _ True True _
      ((Evaluation.visitAll (Recursion.ofDepth n) 1 cs).run.run (Evaluation.opened o log))
      ((Evaluation.visitAll (Recursion.ofDepth n') 1 cs).run.run (Evaluation.opened o log')) :=
    (Recursion.lockstep_ofDepth (.same fun _ => false) n n' (fun _ => trivial)
      fun _ => trivial).visitAll fresh (fun n _ => .inl rfl) _ _
        (Evaluation.renamed_opened o log log' _)
  rw [Eval.run_eq, Eval.run_eq, visits, visits'] at lock
  cases lock with
  | ok same =>
    have e : Node.renamedAll id (fun _ => false) children =
        Node.renamedAll id (fun _ => false) children' := same
    rw [Node.renamedAll_id, Node.renamedAll_id] at e
    rw [e]

/-- What a document that has been compiled has gone through. -/
theorem stages_of_cssTo (h : (Document.cssTo depth o (.plain {} .root cs) log).1 = .ok css) :
    Nesting.check (.plain {} .root cs) = .ok () ∧ ∃ children w s left,
      Eval.runFresh o #[] log (fun scope =>
          (Recursion.ofDepth depth).visit scope (.plain {} .root cs)) =
        (.ok [.plain {} .root children], w) ∧
      Layout.State.groups s = w.groups ∧ (Layout.layAll .root children).outcome s = .ok left ∧
      css = Css.renderChildren o left := by
  obtain ⟨tree, notes, checks, rest⟩ := Logged.bind_eq_ok (Prod.ext h rfl)
  unfold Document.checked at checks
  cases right : Nesting.check (.plain {} .root cs) with
  | error d =>
    rw [right] at checks
    cases checks
  | ok =>
    rw [right] at checks
    cases checks
    obtain ⟨nodes, notes', flat, done⟩ := Logged.bind_eq_ok rest
    obtain ⟨evaluated, between, run, layout⟩ := Document.stages_of_flatTo flat
    obtain ⟨w, run, groups⟩ := Document.run_of_evaluateTo run
    obtain ⟨depth, rfl⟩ := depth_of_run run
    obtain ⟨children, -, content⟩ := Evaluation.outcome_document.1 (congrArg Prod.fst run)
    obtain ⟨laid, lays, rfl⟩ := layout _ content
    obtain ⟨left, outcome, flat⟩ := Document.layAll_of_layOut lays
    rw [flat] at done
    rw [content] at run
    cases done
    exact ⟨rfl, children, w, _, left, run, groups, outcome, rfl⟩

end Document

/-! ### The theorem -/

section

variable {o : Options} {log log' : Log} {info info' : Info} {name : String}
  {before body after : List Node}

/-- What is made of statements that have not been evaluated is, without the buffer and the
flush. -/
theorem freshAll_of_captureFlush
    (fresh : Node.freshAll true (before ++ (captureFlush info info' name body ++ after))) :
    Node.freshAll true (before ++ (body ++ after)) := by
  rw [Node.freshAll_append, Node.freshAll_append] at fresh ⊢
  obtain ⟨first, captured, last⟩ := fresh
  rw [captureFlush, Node.freshAll, Bool.and_eq_true] at captured
  exact ⟨first, Node.inner_of_fresh captured.1, last⟩

/-- The nesting is right in both documents, or in neither. -/
theorem check_captureFlush (info info' : Info) (name : String)
    (fresh : Node.freshAll true (before ++ (body ++ after))) (grouping : body.all Node.grouping) :
    Nesting.check (.plain {} .root (before ++ (body ++ after))) = .ok () ↔
      Nesting.check (.plain {} .root (before ++ (captureFlush info info' name body ++ after))) =
        .ok () := by
  rw [Node.freshAll_append, Node.freshAll_append] at fresh
  exact Nesting.check_capture fresh.2.1 grouping info info' { written := [.text name] }
    { written := [.text name] } []

/-- The trees that both documents come to are laid out in the same way. -/
theorem Document.together_layAll {depth depth' : Nat} {cs cs' children children' : List Node}
    {w v : World} (fresh : Node.freshAll true cs) (fresh' : Node.freshAll true cs')
    (right : Nesting.check (.plain {} .root cs) = .ok ())
    (right' : Nesting.check (.plain {} .root cs') = .ok ())
    (run : Eval.runFresh o #[] log (fun scope =>
        (Recursion.ofDepth depth).visit scope (.plain {} .root cs)) =
      (.ok [.plain {} .root children], w))
    (run' : Eval.runFresh o #[] log' (fun scope =>
        (Recursion.ofDepth depth').visit scope (.plain {} .root cs')) =
      (.ok [.plain {} .root children'], v))
    (captured : CapturedIn info info' name children children') {s t : Layout.State}
    (hs : s.groups = w.groups) (ht : t.groups = v.groups) :
    Layout.Together Eq ((Layout.layAll .root children).outcome s)
      ((Layout.layAll .root children').outcome t) := by
  obtain ⟨_, same, settled, ordered, bound⟩ :=
    Document.ordered_of_run true depth o log fresh right run
  obtain ⟨_, same', -, -, bound'⟩ :=
    Document.ordered_of_run true depth' o log' fresh' right' run'
  cases same
  cases same'
  exact Layout.together_capturedIn captured settled ordered (hs ▸ bound) (ht ▸ bound')

section

variable (named : (bufferKey name).isEmpty = false)
  (fresh : Node.freshAll true (before ++ (captureFlush info info' name body ++ after)))
  (grouping : body.all Node.grouping) (some' : body ≠ [])
  (apart : ∀ depth evaluated notes,
    Document.evaluateTo depth o { content := .plain {} .root (before ++ (body ++ after)) } log =
      (.ok evaluated, notes) → Node.Avoids (isKey name) (Node.stepsAll evaluated.content))

include named fresh grouping some' apart

/-- Both documents are evaluated to the same, but for the buffer and the flush in the
second, if one of them can be evaluated. -/
theorem Evaluation.ended_document (log' : Log) {first second : Prop} (depth depth' : Nat)
    (fewer : depth' ≤ depth → first) (more : depth < depth' → second)
    (right : Nesting.check (.plain {} .root (before ++ (body ++ after))) = .ok ()) :
    Eval.Ended first second (CapturedIn info info' name)
      ((visitAll (Recursion.ofDepth depth') 1 (before ++ (body ++ after))).outcome
        (opened o log))
      ((visitAll (Recursion.ofDepth (depth + 1)) 1
        (before ++ (captureFlush info info' name body ++ after))).outcome (opened o log')) := by
  refine (ended_visitAll named fewer more info info' (freshAll_of_captureFlush fresh)
    (Nesting.tame_of_check right) grouping some' (renamed_opened o log log' (isKey name))
    (sound_opened o log) (sound_opened o log') rfl rfl (Nat.lt_succ_self 1)).mono
      fun children _ visits _ captured => captured ?_
  -- no step of the whole document is about the name
  have run := outcome_document.2 ⟨children, visits, rfl⟩
  have avoids := apart _ _ _ (Document.evaluateTo_of_run (Prod.ext run rfl))
  rw [Node.stepsAll_singleton, Node.steps_plain, Node.avoids_append, Node.avoids_append] at avoids
  exact avoids.1.2

/-- With the buffer and the flush a document is compiled as without them. -/
theorem Document.cssTo_captureFlush {depth : Nat} {css : String}
    (compiles :
      (Document.cssTo depth o (.plain {} .root (before ++ (body ++ after))) log).1 = .ok css) :
    (Document.cssTo (depth + 1) o (.plain {} .root
      (before ++ (captureFlush info info' name body ++ after))) log').1 = .ok css := by
  have fresh' := freshAll_of_captureFlush fresh
  obtain ⟨right, children, w, s, left, run, hs, lays, rfl⟩ := Document.stages_of_cssTo compiles
  obtain ⟨depth, rfl⟩ := Document.depth_of_run run
  have right' := (check_captureFlush info info' name fresh' grouping).1 right
  obtain ⟨_, visits, e⟩ := Evaluation.outcome_document.1 (congrArg Prod.fst run)
  cases e
  have ended : Eval.Ended True False _ _ _ := Evaluation.ended_document named fresh grouping some'
    apart log' depth depth (fun _ => trivial) (Nat.lt_irrefl depth) right
  rw [visits] at ended
  obtain ⟨children', visits', captured⟩ := ended.exists_right
  have run' := Evaluation.outcome_document.2 ⟨children', visits', rfl⟩
  refine Document.cssTo_of_stages right' (Prod.ext run' rfl) fun t ht => ?_
  have together := Document.together_layAll fresh' fresh right right' run (Prod.ext run' rfl)
    captured hs ht
  rw [lays] at together
  obtain ⟨_, lays', rfl⟩ := together.exists_right
  exact lays'

/-- Without the buffer and the flush a document is compiled as with them. -/
theorem Document.cssTo_of_captureFlush {depth : Nat} {css : String}
    (compiles : (Document.cssTo depth o (.plain {} .root
      (before ++ (captureFlush info info' name body ++ after))) log').1 = .ok css) :
    (Document.cssTo depth o (.plain {} .root (before ++ (body ++ after))) log).1 = .ok css := by
  have fresh' := freshAll_of_captureFlush fresh
  obtain ⟨right', children', v, t, left, run', ht, lays', rfl⟩ := Document.stages_of_cssTo compiles
  have right := (check_captureFlush info info' name fresh' grouping).2 right'
  obtain ⟨depth, rfl⟩ := Document.depth_of_run run'
  obtain ⟨_, visits', e⟩ := Evaluation.outcome_document.1 (congrArg Prod.fst run')
  cases e
  cases depth with
  | zero =>
    -- the bound is too low for any statement
    have none' : (before ++ (captureFlush info info' name body ++ after)) ≠ [] := by
      cases before <;> exact List.cons_ne_nil _ _
    obtain ⟨n, ns, e⟩ := List.exists_cons_of_ne_nil none'
    rw [e, Evaluation.visitAll_cons] at visits'
    cases visits'
  | succ depth =>
    have ended : Eval.Ended False True _ _ _ := Evaluation.ended_document named fresh grouping
      some' apart log' depth (depth + 1) (Nat.not_succ_le_self depth) (fun _ => trivial) right
    rw [visits'] at ended
    obtain ⟨children, visits, captured⟩ := ended.exists_left
    have run := Evaluation.outcome_document.2 ⟨children, visits, rfl⟩
    refine Document.cssTo_of_stages right (Prod.ext run rfl) fun s hs => ?_
    have together := Document.together_layAll fresh' fresh right right' (Prod.ext run rfl) run'
      captured hs ht
    rw [lays'] at together
    obtain ⟨_, lays, rfl⟩ := together.exists_left
    exact lays

end

/-- **Capturing and flushing at once is the identity.**  Take statements that have not been
evaluated, with a buffer of a fixed name around those in the middle, which are rules, queries
and conditions, and a flush of it after them.  If no buffer and no flush that is evaluated
in the document without these two has that name, the document with them comes to a CSS text
exactly if the document without them does. -/
theorem Document.css_captureFlush (named : (bufferKey name).isEmpty = false)
    (fresh : Node.freshAll true (before ++ (captureFlush info info' name body ++ after)))
    (grouping : body.all Node.grouping) (some' : body ≠ [])
    (apart : ∀ depth evaluated notes,
      Document.evaluateTo depth o { content := .plain {} .root (before ++ (body ++ after)) } log =
        (.ok evaluated, notes) → Node.Avoids (isKey name) (Node.stepsAll evaluated.content))
    (css : String) :
    (∃ depth, (Document.cssTo depth o (.plain {} .root (before ++ (body ++ after))) log).1 =
        .ok css) ↔
      ∃ depth, (Document.cssTo depth o (.plain {} .root
        (before ++ (captureFlush info info' name body ++ after))) log').1 = .ok css := by
  constructor
  · rintro ⟨depth, compiles⟩
    exact ⟨depth + 1, Document.cssTo_captureFlush named fresh grouping some' apart compiles⟩
  · rintro ⟨depth, compiles⟩
    exact ⟨depth, Document.cssTo_of_captureFlush named fresh grouping some' apart compiles⟩

end

/-- A query with a flush in it, between a buffer and another flush. -/
theorem Document.css_captureFlush_query :
    let query (text : String) (cs : List Node) : Node := .plain {} (.media [.text text] none) cs
    let leaf : Node :=
      .plain {} (.declaration [.text "a"] (some (.literal (.word "b"))) none none) []
    let flush : Node := .plain {} (.flush { written := [.text "m"] } []) []
    let before := [.plain {} (.buffer { written := [.text "m"] }) [query "x" [leaf]]]
    let body := [query "y" [leaf, flush]]
    let css := "@media y \x7b\n  a: b;\n\x7d\n@media y and x \x7b\n  a: b;\n\x7d\n\n" ++
      "@media x \x7b\n  a: b;\n\x7d\n"
    (∃ depth, (Document.cssTo depth {} (.plain {} .root (before ++ (body ++ [flush]))) #[]).1 =
        .ok css) ∧
      ∃ depth, (Document.cssTo depth {} (.plain {} .root
        (before ++ (captureFlush {} {} "n" body ++ [flush]))) #[]).1 = .ok css := by
  intro query leaf flush before body css
  let direct : Node := .plain {} .root (before ++ (body ++ [flush]))
  have compiles : (Document.cssTo 6 {} direct #[]).1 = .ok css := by
    have text : (Document.cssTo 6 {} direct #[]).1.toOption = some css := by decide +kernel
    cases e : (Document.cssTo 6 {} direct #[]).1 with
    | error f =>
      rw [e] at text
      cases text
    | ok written =>
      rw [e] at text
      exact congrArg _ (Option.some.inj text)
  refine ⟨⟨6, compiles⟩, (css_captureFlush (by decide) (by rfl) (by rfl)
    (List.cons_ne_nil _ _) (fun depth evaluated notes run => ?_) css).1 ⟨6, compiles⟩⟩
  -- no step is about the name, at whatever depth
  have clear : ((Document.evaluateTo 6 {} { content := direct } #[]).1.toOption.map fun e =>
      (Node.stepsAll e.content).all fun s => !s.name.any (isKey "n")) = some true := by
    decide +kernel
  rcases run' : Document.evaluateTo 6 {} { content := direct } #[] with ⟨outcome, log⟩
  rw [run'] at clear
  cases outcome with
  | error f => cases clear
  | ok e =>
    rw [content_of_evaluateTo (by rfl) run' run]
    intro s hs
    simpa using List.all_eq_true.1 (Option.some.inj clear) s hs

end Stylesheet
