/-
# Statements in lockstep

Statements are evaluated in lockstep, too (`Recursion.Lockstep.visitNode`): what they leave
in the two worlds is the same but for the numbers of groups and for what the flushes of
free names have captured.  So evaluators that are in lockstep stay so one call further up,
and evaluators with bounds on their depth are in lockstep whatever the bounds are
(`Recursion.lockstep_ofDepth`): the one with the lower bound may be exhausted first, and
only that one.
-/

import Stylesheet.Proofs.Evaluation.Lockstep

namespace Stylesheet

namespace Renaming

variable {R : Renaming}

namespace Same

variable {ns ns' ms ms' : List Node}

/-- What has not been evaluated is renamed to itself. -/
theorem of_fresh {bare : Bool} (fresh : Node.freshAll bare ns) : R.Same ns ns := by
  rw [Renaming.Same, Node.renamedAll_of_freshAll fresh, Node.renamedAll_of_freshAll fresh]

/-- What is the same in two parts is the same in the whole. -/
theorem append (h : R.Same ns ns') (k : R.Same ms ms') : R.Same (ns ++ ms) (ns' ++ ms') := by
  rw [Renaming.Same, Node.renamedAll_append, Node.renamedAll_append, h, k]

/-- What is the same in every part is the same in the whole. -/
theorem flatten {l l' : List (List Node)} (h : List.Forall₂ R.Same l l') :
    R.Same l.flatten l'.flatten := by
  induction h with
  | nil => rfl
  | cons first _ ih => exact first.append ih

/-- The rounds of a loop, of which the last one is the first of a list. -/
theorem rounds {l l' : List (List Node)} (h : R.Same l.reverse.flatten l'.reverse.flatten)
    (k : R.Same ns ns') : R.Same (ns :: l).reverse.flatten (ns' :: l').reverse.flatten := by
  rw [List.reverse_cons, List.reverse_cons, List.flatten_append, List.flatten_append,
    List.flatten_singleton, List.flatten_singleton]
  exact h.append k

/-- A node around nodes that are renamed to others. -/
theorem around {info : Info} {head : Head} (group : info.group = none) (fresh : head.fresh)
    (h : R.Same ns ns') : R.Same [.plain info head ns] [.plain info head ns'] := by
  rw [Renaming.Same, Node.renamedAll_singleton, Node.renamedAll_singleton, Node.renamed,
    Node.renamed, h, Node.info_renamed_of_none group, Node.info_renamed_of_none group,
    Node.head_renamed_of_fresh fresh, Node.head_renamed_of_fresh fresh]

/-- Nodes of the same kinds. -/
theorem all_kind (h : R.Same ns ns') (p : Kind → Bool) :
    (ns.all fun n => p n.kind) = ns'.all fun n => p n.kind := by
  rw [← @Node.all_kind_renamedAll R.group R.free p ns, h, Node.all_kind_renamedAll]

end Same
end Renaming

namespace Eval

variable {R : Renaming} {first second : Prop} {α β : Type} {fits : α → β → Prop}
  {x : Eval α} {y : Eval β}

/-- What follows may use that the outcome has come about. -/
theorem Matches.told (h : Matches R first second fits x y) :
    Matches R first second (fun a b => fits a b ∧ ∃ w, x.outcome w = .ok a) x y := by
  intro w v worlds
  have ends : Matched (World.Renamed R) first second
      (fun a b => fits a b ∧ ∃ w, x.outcome w = .ok a)
      ((x >>= Pure.pure).run.run w) ((y >>= Pure.pure).run.run v) := by
    refine (h w v worlds).elim_bind (fun _ _ _ => .error) (fun h _ _ => .early h)
      (fun h _ _ => .late h) fun a b fit o _ worlds' => ?_
    exact .ok ⟨fit, w, o⟩ worlds'
  rwa [bind_pure, bind_pure] at ends

end Eval

namespace Recursion.Lockstep

open Evaluation
open Eval (Matches)

variable {R : Renaming} {first second : Prop} {r r' : Recursion} {i i' : Nat}
  (hr : r.Lockstep R first second r')

section Parts

variable (pair : R.Pairs i i')

include hr pair

/-- An expression that has to be there has the same value on both sides. -/
theorem evalRequired (e : Option Expr) :
    Matches R first second Eq (evalRequired r i e) (evalRequired r' i' e) := by
  cases e with
  | none => exact .throw _
  | some e => exact hr.eval i i' e pair

/-- An expression that may be missing has the same value on both sides. -/
theorem evalOptional (e : Option Expr) :
    Matches R first second Eq (evalOptional r i e) (evalOptional r' i' e) := by
  cases e with
  | none => exact .pure rfl
  | some e => exact hr.eval i i' e pair

/-- Preludes are filled with the same texts. -/
theorem fillCollapsed (t : Template) :
    Matches R first second Eq (fillCollapsed r i t) (fillCollapsed r' i' t) :=
  (hr.fill pair t).same_bind fun _ => .pure rfl

/-- Tests hold on both sides or on none. -/
theorem testHolds (test : Option Expr) :
    Matches R first second Eq (testHolds r i test) (testHolds r' i' test) := by
  cases test with
  | none => exact .pure rfl
  | some e => exact (hr.eval i i' e pair).same_bind fun _ => .pure rfl

/-- Names of buffers are resolved to the same texts. -/
theorem resolveName (name : BufferName) :
    Matches R first second Eq (resolveName r i name) (resolveName r' i' name) := by
  refine ((hr.fill pair name.written).same_bind fun text => .pure rfl).same_bind fun text => ?_
  split
  · exact .failWith _
  · exact .pure rfl

omit hr pair in
/-- The bounds of loops are the same on both sides. -/
theorem bound (v : Value) (label : String) :
    Matches R first second Eq (bound v label) (bound v label) := by
  have whole : Matches R first second Eq (wholeOf v) (wholeOf v) := by
    unfold wholeOf
    split
    · exact (Matches.liftRange _).same_bind fun _ => .pure rfl
    · exact .pure rfl
  refine whole.same_bind fun found => ?_
  cases found with
  | some p => exact .pure rfl
  | none => exact (Matches.liftRange _).same_bind fun text => .failWith _

end Parts

section Bodies

variable {body : List Node} (fresh : Node.freshAll true body)

include hr fresh

/-- Statements are visited in lockstep, one after the other. -/
theorem visitAll (visits : ∀ n ∈ body, R.Visits i i' n) :
    Matches R first second R.Same (visitAll r i body) (visitAll r' i' body) := by
  refine (Matches.mapM fun n hn => ?_).bind fun results results' h => .pure (.flatten h)
  exact hr.visit i i' n (visits n hn) (Node.freshAll_iff.1 fresh n hn)

/-- Bodies are visited in lockstep, in blocks that are paired. -/
theorem visitBody (pair : R.Pairs i i') :
    Matches R first second R.Same (visitBody r i body) (visitBody r' i' body) :=
  .newScope pair false fun _ => hr.visitAll fresh fun _ _ => .inl rfl

/-- Rounds go round in lockstep. -/
theorem round (loop : Nat) (var : String) (v : Value) :
    Matches R first second R.Same (round r loop var body v)
      (round r' (R.scope loop) var body v) :=
  (Matches.modifyScopes fun _ _ h => h.setLocalVar loop var v).same_bind fun _ =>
    hr.visitBody fresh (.inl rfl)

/-- Loops over values go round in lockstep. -/
theorem eachRounds (pair : R.Pairs i i') (var : String) (values : List Value) :
    Matches R first second R.Same (eachRounds r i var values body)
      (eachRounds r' i' var values body) := by
  refine .newScope pair false fun loop => ?_
  exact (Matches.mapM fun v _ => hr.round fresh loop var v).bind fun results results' h =>
    .pure (.flatten h)

/-- Loops over integers go round in lockstep. -/
theorem forRounds (loop : Nat) (var unit : String) (step : Int) (n : Nat) (k : Int)
    {found found' : List (List Node)}
    (same : R.Same found.reverse.flatten found'.reverse.flatten) :
    Matches R first second R.Same (forRounds r loop var unit body step n k found)
      (forRounds r' (R.scope loop) var unit body step n k found') := by
  induction n generalizing k found found' with
  | zero => exact .pure same
  | succ n ih =>
    exact (hr.round fresh loop var _).bind fun nodes nodes' h => ih (k + step) (same.rounds h)

/-- A loop that may go round more often than the other is not the first to be exhausted. -/
theorem whileRounds (pair : R.Pairs i i') (test : Option Expr) (n n' : Nat)
    (fewer : n < n' → first) (more : n' < n → second) {found found' : List (List Node)}
    (same : R.Same found.reverse.flatten found'.reverse.flatten) :
    Matches R first second R.Same (whileRounds r i test body n found)
      (whileRounds r' i' test body n' found') := by
  induction n generalizing n' found found' with
  | zero =>
    cases n' with
    | zero => exact .throw _
    | succ n' => exact fun w v _ => .early (fewer (Nat.succ_pos n'))
  | succ n ih =>
    cases n' with
    | zero => exact fun w v _ => .late (more (Nat.succ_pos n))
    | succ n' =>
      refine (hr.evalRequired pair test).same_bind fun v => ?_
      split
      · refine (hr.visitBody fresh pair).bind fun nodes nodes' h => ?_
        exact ih n' (fun lt => fewer (by omega)) (fun lt => more (by omega)) (same.rounds h)
      · exact .pure same

end Bodies

/-! ### Buffers and flushes -/

/-- A name is kept in the scope that the one it is kept in is renamed to. -/
theorem bufferScope_eq {s s' : Scopes} (h : s.Renamed R s') (i : Nat) {name : String}
    (e : R.free name = false) :
    bufferScope s' (R.scope i) name = R.scope (bufferScope s i name) := by
  rw [bufferScope, bufferScope, h.buffer?_eq (.inl rfl) e, h.owner_eq (.inl rfl)]
  cases s.buffer? i name <;> rfl

/-- What is told of a new entry need not be the same. -/
theorem noteNewEntry (k k' : ScopeId) (name : String) :
    Matches R first second Eq (noteNewEntry k name) (noteNewEntry k' name) := by
  have notes (k : ScopeId) (w : World) : ∃ log history,
      (Evaluation.noteNewEntry k name).run.run w = (.ok (), { w with log, history }) := by
    obtain ⟨log, -, after⟩ := after_noteNewEntry k name w
    exact ⟨log, w.history, by rw [Eval.run_eq, outcome_noteNewEntry, after]⟩
  exact .of_notes (notes k) (notes k')

/-- What is told of an unknown name need not be the same. -/
theorem noteUnknown (s s' : Scopes) (k k' : ScopeId) (name : String) :
    Matches R first second Eq (noteUnknown s k name) (noteUnknown s' k' name) := by
  have notes (s : Scopes) (k : ScopeId) (w : World) : ∃ log history,
      (Evaluation.noteUnknown s k name).run.run w = (.ok (), { w with log, history }) := by
    unfold Evaluation.noteUnknown
    split
    · exact ⟨w.log, w.history, rfl⟩
    · exact ⟨_, w.history, rfl⟩
  exact .of_notes (notes s k) (notes s' k')

/-- Names are declared in scopes that are renamed, or where names are free. -/
theorem declareBuffer {k k' : Nat} {text : String}
    (kept : R.free text = true ∨ k' = R.scope k) {s s' : Scopes} (h : s.Renamed R s') :
    (s.declareBuffer k text).Renamed R (s'.declareBuffer k' text) := by
  cases e : R.free text with
  | true =>
    exact h.of_sameBut (Scopes.sameBut_declareBuffer e s k) (Scopes.sameBut_declareBuffer e s' k')
  | false =>
    rw [e] at kept
    rw [kept.resolve_left nofun]
    exact h.declareBuffer k e

/-- Groups are put into entries under their numbers, in scopes that are renamed or where names are
free. -/
theorem appendBuffer {k k' : Nat} {text : String}
    (kept : R.free text = true ∨ k' = R.scope k) {s s' : Scopes} (h : s.Renamed R s')
    {g g' : GroupId} (number : g' = R.group g) :
    (s.appendBuffer k text g).Renamed R (s'.appendBuffer k' text g') := by
  cases e : R.free text with
  | true =>
    exact h.of_sameBut (Scopes.sameBut_appendBuffer e s k g)
      (Scopes.sameBut_appendBuffer e s' k' g')
  | false =>
    rw [e] at kept
    rw [kept.resolve_left nofun, number]
    exact h.appendBuffer k e g

/-- Buffers are declared in lockstep. -/
theorem declareOnly {k k' : Nat} {text : String} (kept : R.free text = true ∨ k' = R.scope k) :
    Matches R first second R.Same (declareOnly k text) (declareOnly k' text) :=
  (noteNewEntry k k' text).same_bind fun _ =>
    (Matches.modifyScopes fun _ _ => declareBuffer kept).same_bind fun _ =>
      (Matches.note _ _ _ _).same_bind fun _ => .pure rfl

/-- Groups are captured in lockstep, with the numbers they are renamed to. -/
theorem capture {k k' : Nat} {text : String} (kept : R.free text = true ∨ k' = R.scope k)
    (info : Info) (name : BufferName) {children children' : List Node}
    (same : R.Same children children') :
    Matches R first second R.Same (capture k text info name children)
      (capture k' text info name children') := by
  intro w v worlds
  have number : v.groups.size = R.group w.groups.size := (worlds.groups 0).symm
  obtain ⟨log, -, after⟩ := after_capture k text info name children w
  obtain ⟨log', -, after'⟩ := after_capture k' text info name children' v
  rw [Eval.run_eq, Eval.run_eq, outcome_capture, outcome_capture, after, after']
  refine .ok ?_ ⟨appendBuffer kept worlds.scopes number, fun m => ?_⟩
  · rw [Renaming.Same, Node.renamedAll_singleton, Node.renamedAll_singleton, Node.renamed,
      Node.renamed, same, Info.renamed, Info.renamed, Option.map_some, Option.map_some, number]
    rfl
  · rw [Array.size_push, Array.size_push, Nat.add_assoc, Nat.add_assoc]
    exact worlds.groups (1 + m)

section

include hr

/-- Buffers are visited in lockstep. -/
theorem visitBuffer (info : Info) (name : BufferName) {body : List Node}
    (fresh : Node.freshAll true body) :
    Matches R first second R.Same (visitBuffer r i info name body)
      (visitBuffer r' (R.scope i) info name body) := by
  refine (hr.resolveName (.inl rfl) name).same_bind fun p => ?_
  obtain ⟨text, name⟩ := p
  refine (hr.visitBody fresh (.inl rfl)).bind fun children children' same => ?_
  refine .scopes_bind fun s s' h => ?_
  have kept : R.free text = true ∨
      bufferScope s' (R.scope i) text = R.scope (bufferScope s i text) := by
    cases e : R.free text with
    | true => exact .inl rfl
    | false => exact .inr (bufferScope_eq h i e)
  rw [same.all_kind (· == .comment)]
  split
  · exact declareOnly kept
  · exact capture kept info name same

/-- Flushes are visited in lockstep: what one has found is renamed into what the other has found. -/
theorem visitFlush {info : Info} (group : info.group = none) (pair : R.Pairs i i')
    (name : BufferName) {children : List Node} (fresh : Node.freshAll true children) :
    Matches R first second R.Same (visitFlush r i info name children)
      (visitFlush r' i' info name children) := by
  refine (hr.resolveName pair name).told.bind fun p q h => ?_
  obtain ⟨rfl, w, found⟩ := h
  obtain ⟨text, name⟩ := p
  have named := resolved_of_resolveName found
  refine .scopes_bind fun s s' h => (noteUnknown s s' i i' text).same_bind fun _ =>
    (Matches.record _ _ _ _).same_bind fun _ => .pure ?_
  have captured (e : R.free text = false) :
      (s'.buffer? i' text).getD [] = ((s.buffer? i text).getD []).map R.group := by
    rw [h.buffer?_eq pair e]
    cases s.buffer? i text <;> rfl
  rw [Renaming.Same, Node.renamedAll_singleton, Node.renamedAll_singleton, Node.renamed,
    Node.renamed, Node.info_renamed_of_none group, Node.info_renamed_of_none group,
    Node.renamedAll_of_freshAll fresh, Node.renamedAll_of_freshAll fresh, Head.renamed,
    Head.renamed, named, Option.any_some, List.map_id]
  cases e : R.free text with
  | true => rfl
  | false => rw [captured e]

/-! ### Statements -/

/-- Mixins are included in lockstep. -/
theorem includeMixin (pair : R.Pairs i i') (d : Definition) (fresh : Node.freshAll true d.body)
    (args : List Value) (keywords : List (String × Value)) :
    Matches R first second R.Same (includeMixin r i d args keywords)
      (includeMixin r' i' (R.definition d) args keywords) := by
  refine hr.invocation d args keywords fun b => .scopes_bind fun s s' h => ?_
  rw [h.selector?_eq pair]
  exact (Matches.modifyScopes fun _ _ h => h.setSelector b _).same_bind fun _ =>
    hr.visitAll fresh fun _ _ => .inl rfl

/-- Inclusions are visited in lockstep. -/
theorem visitInclusion (pair : R.Pairs i i') (name : String) (args : List Expr)
    (keywords : List (String × Expr)) :
    Matches R first second R.Same (visitInclusion r i name args keywords)
      (visitInclusion r' i' name args keywords) := by
  refine .scopes_bind fun s s' h => ?_
  rw [h.mixin?_eq pair]
  cases found : s.mixin? i name with
  | none => exact .failWith _
  | some d =>
    exact (hr.evalArguments pair args).same_bind fun args =>
      (hr.evalKeywords pair keywords).same_bind fun keywords =>
        hr.includeMixin pair d (h.fresh_of_mixin? found) args keywords

/-- Statements are visited in lockstep. -/
theorem visitPlain {info : Info} {head : Head} {children : List Node}
    (visits : R.Visits i i' (.plain info head children))
    (fresh : (Node.plain info head children).fresh true) :
    Matches R first second R.Same (visitPlain r i info head children)
      (visitPlain r' i' info head children) := by
  have pair : R.Pairs i i' := visits.elim .inl (·.1)
  simp only [Node.fresh, Bool.and_eq_true, Option.isNone_iff_eq_none] at fresh
  obtain ⟨⟨⟨group, -⟩, -⟩, inner⟩ := fresh
  cases head with
  | root =>
    exact (hr.visitBody inner pair).bind fun _ _ same => .pure (same.around group rfl)
  | rule selector resolved =>
    refine (hr.fill pair selector).same_bind fun text => .scopes_bind fun s s' h => ?_
    rw [h.selector?_eq pair]
    refine (Matches.lift _).same_bind fun selectors => .newScope pair false fun b => ?_
    refine (Matches.modifyScopes fun _ _ h => h.setSelector b _).same_bind fun _ => ?_
    exact (hr.visitBody inner (.inl rfl)).bind fun _ _ same => .pure (same.around group rfl)
  | declaration name value resolvedName resolvedValue =>
    refine (hr.fill pair name).same_bind fun resolvedName =>
      (hr.evalOptional pair value).same_bind fun v =>
        (Matches.liftRange _).same_bind fun text => ?_
    split
    · exact .pure rfl
    · exact .pure ((Renaming.Same.of_fresh inner).around group rfl)
  | directive prelude resolved hasBlock =>
    refine (hr.fillCollapsed pair prelude).same_bind fun text => ?_
    have block : Matches R first second R.Same (visitBlock r i hasBlock children)
        (visitBlock r' i' hasBlock children) := by
      unfold visitBlock
      split
      · exact hr.visitBody inner pair
      · exact .pure (.of_fresh inner)
    exact block.bind fun _ _ same => .pure (same.around group rfl)
  | media query resolved =>
    exact (hr.fillCollapsed pair query).same_bind fun text =>
      (hr.visitBody inner pair).bind fun _ _ same => .pure (same.around group rfl)
  | supports condition resolved =>
    exact (hr.fillCollapsed pair condition).same_bind fun text =>
      (hr.visitBody inner pair).bind fun _ _ same => .pure (same.around group rfl)
  | importSheet uri => exact .pure ((Renaming.Same.of_fresh inner).around group rfl)
  | extend selector resolved =>
    exact (hr.fillCollapsed pair selector).same_bind fun text =>
      .pure ((Renaming.Same.of_fresh inner).around group rfl)
  | comment text silent =>
    cases silent with
    | true => exact .pure rfl
    | false => exact .pure ((Renaming.Same.of_fresh inner).around group rfl)
  | assignment name value guarded =>
    have here : i' = R.scope i := visits.here rfl
    subst here
    refine .scopes_bind fun s s' h => ?_
    rw [h.var?_eq pair]
    extract_lets kept
    split
    · exact .pure rfl
    · exact (hr.evalRequired pair value).same_bind fun v =>
        (Matches.modifyScopes fun _ _ h => h.setVar i name v).same_bind fun _ => .pure rfl
  | forLoop var start stop exclusive =>
    refine (hr.evalRequired pair start).same_bind fun v => (bound v _).same_bind fun p =>
      (hr.evalRequired pair stop).same_bind fun u => (bound u _).same_bind fun q =>
        .newScope pair false fun loop => ?_
    exact hr.forRounds inner loop var _ _ _ _ rfl
  | eachLoop var list =>
    exact (hr.evalRequired pair list).same_bind fun v => hr.eachRounds inner pair var v.items
  | whileLoop test =>
    exact hr.whileRounds inner pair test r.rounds r'.rounds hr.fewer hr.more rfl
  | mixin name params =>
    have here : i' = R.scope i := visits.here rfl
    subst here
    exact (Matches.modifyScopes fun _ _ h => h.setMixin i name
      { what := .mixin, name, params, scope := i, body := children } inner).same_bind
        fun _ => .pure rfl
  | inclusion name args keywords => exact hr.visitInclusion pair name args keywords
  | function name params =>
    have here : i' = R.scope i := visits.here rfl
    subst here
    exact (Matches.modifyScopes fun _ _ h => h.setFunction i name
      { what := .function, name, params, scope := i, body := children } inner).same_bind
        fun _ => .pure rfl
  | result value => exact (hr.evalRequired pair value).same_bind fun v => .throw _
  | debug value =>
    exact (hr.evalRequired pair value).same_bind fun v => (Matches.liftRange _).same_bind
      fun text => (Matches.note _ _ _ _).same_bind fun _ => .pure rfl
  | warn value =>
    refine (hr.evalRequired pair value).same_bind fun v => .scopes_bind fun s s' h => ?_
    rw [h.options i i' pair]
    split
    · exact .pure rfl
    · exact (Matches.liftRange _).same_bind fun text =>
        (Matches.note _ _ _ _).same_bind fun _ => .pure rfl
  | buffer name =>
    have here : i' = R.scope i := visits.here rfl
    subst here
    exact hr.visitBuffer info name inner
  | flush name captured => exact hr.visitFlush group pair name inner

/-- **Statements are evaluated in lockstep.** -/
theorem visitNode {n : Node} (visits : R.Visits i i' n) (fresh : n.fresh true) :
    Matches R first second R.Same (visitNode r i n) (visitNode r' i' n) := by
  refine .locate _ ?_
  match n with
  | .plain info head children =>
    have apart : (Node.plain info.apart head children).fresh true := by
      simp_all [Node.fresh, Info.apart]
    exact hr.visitPlain visits apart
  | .cond info test children otherwise =>
    have pair : R.Pairs i i' := visits.elim .inl (·.1)
    have here : i' = R.scope i := visits.here rfl
    simp only [Node.fresh, Bool.and_eq_true] at fresh
    refine (hr.testHolds pair test).same_bind fun holds => ?_
    split
    · exact hr.visitBody fresh.1.2 pair
    · cases otherwise with
      | none => exact .pure rfl
      | some clause => exact hr.visit i i' clause (.inl here) fresh.2

end
end Recursion.Lockstep

/-- **Evaluations with other bounds on their depth are in lockstep**, except that the one
with the lower bound may be exhausted first. -/
theorem Recursion.lockstep_ofDepth (R : Renaming) {first second : Prop} (n n' : Nat)
    (fewer : n < n' → first) (more : n' < n → second) :
    (ofDepth n).Lockstep R first second (ofDepth n') := by
  induction n generalizing n' with
  | zero =>
    cases n' with
    | zero => exact ⟨nofun, nofun, fun _ _ _ _ => .throw _, fun _ _ _ _ _ => .throw _⟩
    | succ n' =>
      have h : first := fewer (Nat.succ_pos n')
      exact ⟨fun _ => h, nofun, fun _ _ _ _ _ _ _ => .early h, fun _ _ _ _ _ _ _ _ => .early h⟩
  | succ n ih =>
    cases n' with
    | zero =>
      have h : second := more (Nat.succ_pos n)
      exact ⟨nofun, fun _ => h, fun _ _ _ _ _ _ _ => .late h, fun _ _ _ _ _ _ _ _ => .late h⟩
    | succ n' =>
      have below := ih n' (fun lt => fewer (Nat.succ_lt_succ lt))
        fun lt => more (Nat.succ_lt_succ lt)
      exact ⟨fun lt => fewer (Nat.succ_lt_succ lt), fun lt => more (Nat.succ_lt_succ lt),
        fun _ _ e pair => below.evalExpr pair e,
        fun _ _ _ visits fresh => below.visitNode visits fresh⟩

end Stylesheet
