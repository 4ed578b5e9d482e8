/-
# Evaluators keep to what they are held to

The evaluators are gone through once, for every conduct that is lawful: if the evaluators
that they call keep to it (`Recursion.Conducted`), so do they, and so do all evaluators of any
depth (`Recursion.conducted_ofDepth`).

An expression follows its course in the scope it is evaluated in, past no node.  A body follows
one in the block that is made for it; what is said around the block is what its `Course.Opens`
says.
-/

import Stylesheet.Proofs.Evaluation.Conduct
import Stylesheet.Proofs.Scope.Tree

namespace Stylesheet

open Eval

/-- Evaluators that keep to a conduct. -/
structure Recursion.Conducted {κ : Type} (a : Conduct κ) (r : Recursion) : Prop where
  eval : ∀ i {e}, a.expr e → Follows (a.expression i) (r.eval i e) (PastNone a.value)
  visit : ∀ i {k n}, a.visited k n → Follows (a.visit k n i) (r.visit i n) (Past (a.gives k n))

namespace Evaluation

variable {κ : Type} {a : Conduct κ} (lawful : a.Lawful) {r : Recursion} (hr : r.Conducted a)
  {i : ScopeId}

/-! ### Expressions -/

section Failures

variable {α : Type} {fits : α → List Node → Prop}

include lawful

/-- A computation with values follows the course of an expression if it fails as it may. -/
theorem follows_lift {P : α → Prop} {x : Except Failure α} (h : Ends a.fails x P) :
    Follows (a.expression i) (Eval.lift x) (PastNone P) :=
  .lift (fun _ _ => lawful.moves.raises) h

/-- An expression may be given up with a failure that may be raised. -/
theorem follows_fail {f : Failure} (h : a.fails f) :
    Follows (a.expression i) (Eval.fail f : Eval α) fits :=
  .throw fun _ hw => lawful.moves.raises hw h

/-- An expression may be given up for any cause. -/
theorem follows_failWith (cause : Cause) :
    Follows (a.expression i) (Eval.failWith cause : Eval α) fits :=
  follows_fail lawful (lawful.computes.cause cause)

end Failures

section Expressions

include lawful hr

/-- The holes of a template are evaluated one after the other. -/
theorem follows_fill {t : Template} (h : a.Template t) :
    Follows (a.expression i) (fill r i t) (PastNone fun _ => True) := by
  refine (Follows.mapM (P := fun _ => True) fun f hf => ?_).next fun _ _ => .pure ⟨rfl, trivial⟩
  cases f with
  | text s => exact .pure ⟨rfl, trivial⟩
  | hole e =>
    exact (hr.eval i (h e hf)).next fun v hv => follows_lift lawful (lawful.computes.plain hv)

/-- A prelude is a template, with its blanks collapsed. -/
theorem follows_fillCollapsed {t : Template} (h : a.Template t) :
    Follows (a.expression i) (fillCollapsed r i t) (PastNone fun _ => True) :=
  (follows_fill lawful hr h).next fun _ _ => .pure ⟨rfl, trivial⟩

omit lawful in
/-- Positional arguments are evaluated one after the other, to values that are known. -/
theorem follows_args {es : List Expr} (h : ∀ e ∈ es, a.expr e) :
    Follows (a.expression i) (es.mapM (r.eval i)) (PastNone fun vs => ∀ v ∈ vs, a.value v) :=
  .mapM fun e he => hr.eval i (h e he)

omit lawful in
/-- Keyword arguments are evaluated one after the other, to values that are known. -/
theorem follows_evalKeywords {keywords : List (String × Expr)} (h : ∀ k ∈ keywords, a.expr k.2) :
    Follows (a.expression i) (evalKeywords r i keywords)
      (PastNone fun ks => ∀ k ∈ ks, a.value k.2) :=
  .mapM fun k hk => (hr.eval i (h k hk)).next fun _ hv => .pure ⟨rfl, hv⟩

/-- An expression that has to be there comes to a value that is known. -/
theorem follows_required {o : Option Expr} (h : a.Required o) :
    Follows (a.expression i) (evalRequired r i o) (PastNone a.value) := by
  cases o with
  | none => exact follows_fail lawful (h.2 rfl)
  | some e => exact hr.eval i (h.1 e rfl)

/-- An expression that may be missing comes to a value that is known. -/
theorem follows_optional {o : Option Expr} (h : ∀ e ∈ o, a.expr e) :
    Follows (a.expression i) (evalOptional r i o) (PastNone a.value) := by
  cases o with
  | none => exact .pure ⟨rfl, lawful.computes.null⟩
  | some e => exact hr.eval i (h e rfl)

omit lawful in
/-- A test follows the course of its expression. -/
theorem follows_testHolds {o : Option Expr} (h : ∀ e ∈ o, a.expr e) :
    Follows (a.expression i) (testHolds r i o) (PastNone fun _ => True) := by
  cases o with
  | none => exact .pure ⟨rfl, trivial⟩
  | some e => exact (hr.eval i (h e rfl)).next fun _ _ => .pure ⟨rfl, trivial⟩

omit hr in
/-- The bound of a loop is an integer, or it is refused. -/
theorem follows_bound {v : Value} (hv : a.value v) (label : String) :
    Follows (a.expression i) (bound v label) (PastNone fun _ => True) := by
  have whole : Follows (a.expression i) (wholeOf v) (PastNone fun _ => True) := by
    cases v with
    | number x unit =>
      exact (follows_lift lawful (lawful.computes.whole hv)).next fun _ _ => .pure ⟨rfl, trivial⟩
    | _ => exact .pure ⟨rfl, trivial⟩
  refine whole.next fun found _ => ?_
  cases found with
  | some found => exact .pure ⟨rfl, trivial⟩
  | none =>
    exact (follows_lift lawful (lawful.computes.css hv)).next fun _ _ => follows_failWith lawful _

/-- The name of a buffer is resolved past no node. -/
theorem follows_resolveName {name : BufferName} (h : a.Template name.written) :
    Follows (a.expression i) (resolveName r i name)
      (PastNone fun p => ∃ text, p = (text, { name with resolved := some text })) := by
  have text : Follows (a.expression i) (bufferText r i name) (PastNone fun _ => True) :=
    (follows_fill lawful hr h).next fun _ _ => .pure ⟨rfl, trivial⟩
  refine text.next fun text _ => ?_
  split
  · exact follows_failWith lawful _
  · exact .pure ⟨rfl, text, rfl⟩

omit hr in
/-- A function that is not defined anywhere is written out as a call. -/
theorem follows_plainCall {name : String} {args : List Value} {keywords : List (String × Value)}
    (positional : ∀ v ∈ args, a.value v) (named : ∀ k ∈ keywords, a.value k.2) :
    Follows (a.expression i) (plainCall name args keywords) (PastNone a.value) := by
  refine (Follows.mapM fun v hv =>
    follows_lift lawful (lawful.computes.css (positional v hv))).next fun texts _ => ?_
  refine (Follows.mapM (P := fun _ => True) fun k hk => ?_).next fun _ _ =>
    .pure ⟨rfl, lawful.computes.string _ _⟩
  exact (follows_lift lawful (lawful.computes.css (named k hk))).next fun _ _ =>
    .pure ⟨rfl, trivial⟩

/-! ### Invocations -/

omit lawful hr in
/-- Keywords are put into a table under their normalized names, with their values. -/
theorem value_normalizeKeywords {keywords : List (String × Value)}
    (h : ∀ k ∈ keywords, a.value k.2) :
    ∀ name v, (normalizeKeywords keywords).get? name = some v → a.value v := by
  unfold normalizeKeywords
  refine List.foldlRecOn (motive := fun t : Table Value =>
    ∀ name v, t.get? name = some v → a.value v) keywords _ (by simp) fun t ht k hk => ?_
  exact Table.all_set ht (h k hk)

/-- What a parameter is bound to is an argument, a keyword or its default. -/
theorem follows_argument {d : Definition} {keywords : Table Value} {p : Parameter}
    {args : List Value} (default : ∀ e ∈ p.2, a.expr e)
    (named : ∀ name v, keywords.get? name = some v → a.value v) (h : ∀ v ∈ args, a.value v) :
    Follows (a.expression i) (argument r d i keywords p args) (PastNone a.value) := by
  unfold argument
  extract_lets key
  split
  · exact follows_failWith lawful _
  · exact .pure ⟨rfl, h _ List.mem_cons_self⟩
  · exact .pure ⟨rfl, named key _ (by assumption)⟩
  · exact hr.eval i (default _ (by assumption))
  · exact follows_failWith lawful _

/-- Parameters are bound one after the other in the scope of the call. -/
theorem follows_bindParams {d : Definition} {keywords : Table Value} {params : List Parameter}
    {args : List Value} (defaults : a.Defaults params)
    (named : ∀ name v, keywords.get? name = some v → a.value v) (h : ∀ v ∈ args, a.value v) :
    Follows (a.call i) (bindParams r d i keywords params args) (PastNone fun _ => True) := by
  induction params generalizing args with
  | nil => exact .pure ⟨rfl, trivial⟩
  | cons p params ih =>
    have argument := follows_argument (i := i) lawful hr (d := d)
      (defaults p List.mem_cons_self) named h
    refine (argument.weaken (lawful.moves.expression_le_call i)).next fun v hv => ?_
    refine .next (.modifyScopes fun w hw => lawful.moves.parameter _ hw hv) fun _ _ => ?_
    exact ih (fun q hq => defaults q (List.mem_cons_of_mem p hq))
      fun u hu => h u (List.mem_of_mem_tail hu)

/-- Arguments are bound, unless there are too many or one has no parameter. -/
theorem follows_bindArguments {d : Definition} {args : List Value}
    {keywords : List (String × Value)} (defaults : a.Defaults d.params)
    (positional : ∀ v ∈ args, a.value v) (named : ∀ k ∈ keywords, a.value k.2) :
    Follows (a.call i) (bindArguments r d i args keywords) (PastNone fun _ => True) := by
  have le := lawful.moves.expression_le_call i
  unfold bindArguments
  extract_lets table names
  split
  · exact (follows_failWith lawful _).weaken le
  · split
    · exact (follows_failWith lawful _).weaken le
    · exact follows_bindParams lawful hr defaults (value_normalizeKeywords named) positional

/-- The body of a function, up to its result. -/
theorem follows_result {body : List Node} (visited : ∀ n ∈ body, a.visited a.function n) :
    Follows (a.call i) (Eval.catchResult (body.forM fun n => do let _ ← r.visit i n))
      (PastNone fun o => ∀ v ∈ o, a.value v) := by
  refine .catchResult (.forM fun n hn => ?_) (lawful.moves.catches i)
  have visit := (hr.visit i (visited n hn)).weaken (lawful.moves.visit_le_block i (visited n hn))
  exact visit.bind fun _ _ _ => .pure trivial

/-- A call of a function, in the scope that is made for it. -/
theorem takes_invoke {outer : World → Prop} {c : Course outer} {w : World} {d : Definition}
    (opens : Course.Opens (a.call w.scopes.all.size) c w d.scope true)
    (defaults : a.Defaults d.params) (visited : ∀ n ∈ d.body, a.visited a.function n)
    {args : List Value} {keywords : List (String × Value)} (positional : ∀ v ∈ args, a.value v)
    (named : ∀ k ∈ keywords, a.value k.2) :
    Takes c w (invoke r d args keywords) (PastNone a.value) := by
  unfold invoke
  rw [bind_bind]
  refine .newScope opens ((follows_bindArguments lawful hr defaults positional named).next
    (fun _ _ => (follows_result lawful hr visited).next fun o ho => ?_) _ opens.known)
  cases o with
  | some v => exact .pure ⟨rfl, ho v rfl⟩
  | none => exact (follows_failWith lawful _).weaken (lawful.moves.expression_le_call _)

/-- A call is one of a function that is found, of a builtin one, or a plain text. -/
theorem follows_call {name : String} {args : List Expr} {keywords : List (String × Expr)}
    (known : a.expr (.call name args keywords)) {vs : List Value} {ks : List (String × Value)}
    (positional : ∀ v ∈ vs, a.value v) (named : ∀ k ∈ ks, a.value k.2) :
    Follows (a.expression i) (call r i name vs ks) (PastNone a.value) := by
  refine .scopes_bind fun w hw => ?_
  split
  · rename_i d found
    obtain ⟨defaults, visited⟩ := lawful.finds.functions hw found
    exact takes_invoke lawful hr (lawful.moves.calls hw found) defaults visited positional named
  · refine (?_ : Follows (a.expression i) _ _) w hw
    cases found : Builtin.find? name with
    | none => exact follows_plainCall lawful positional named
    | some fn =>
      dsimp only
      split
      · cases applied : fn.apply vs with
        | none => exact follows_failWith lawful _
        | some x => exact follows_lift lawful (lawful.computes.apply known found positional applied)
      · exact follows_failWith lawful _

/-- **Expressions keep to a lawful conduct** if the evaluators that they call do. -/
theorem follows_evalExpr {e : Expr} (known : a.expr e) :
    Follows (a.expression i) (evalExpr r i e) (PastNone a.value) := by
  have c := lawful.computes
  cases e with
  | literal v => exact .pure ⟨rfl, c.literal known⟩
  | «variable» name =>
    refine .scopes_bind fun w hw => ?_
    split
    · exact .step rfl hw ((a.expression i).refl hw) ⟨rfl, lawful.finds.values hw (by assumption)⟩
    · exact follows_failWith lawful _ w hw
  | binary left op right =>
    obtain ⟨hl, hr'⟩ := c.binary known
    refine (hr.eval i hl).next fun v hv => ?_
    split
    · split
      · exact hr.eval i hr'
      · exact .pure ⟨rfl, hv⟩
    · split
      · exact .pure ⟨rfl, hv⟩
      · exact hr.eval i hr'
    · exact (hr.eval i hr').next fun u hu => follows_lift lawful (c.operate _ hv hu)
  | unary op e =>
    exact (hr.eval i (c.unary known)).next fun v hv => follows_lift lawful (c.operateUnary op hv)
  | call name args keywords =>
    obtain ⟨positional, named⟩ := c.call known
    exact (follows_args hr positional).next fun vs hvs =>
      (follows_evalKeywords hr named).next fun ks hks => follows_call lawful hr known hvs hks
  | list items separator =>
    exact (follows_args hr (c.elements known)).next fun vs hvs => .pure ⟨rfl, c.list hvs⟩
  | interpolation fragments quoted =>
    exact (follows_fill lawful hr (c.holes known)).next fun _ _ => .pure ⟨rfl, c.string _ _⟩

end Expressions

/-! ### Bodies -/

section Bodies

variable {k : κ} {body : List Node} (known : ∀ n ∈ body, a.visited k n)

include lawful hr known

/-- The nodes of a body are visited one after the other in its block. -/
theorem follows_visitAll :
    Follows (a.block k i) (visitAll r i body) (Past (a.GivesAll k body)) := by
  have each (n : Node) (hn : n ∈ body) : Follows (a.block k i) (r.visit i n) (Past (a.gives k n)) :=
    (hr.visit i (known n hn)).weaken (lawful.moves.visit_le_block i (known n hn))
  exact .bind (.mapM_past each) fun mss ns ⟨same, given⟩ =>
    .pure ⟨by rw [same, List.append_nil], mss, given, rfl⟩

/-- A body in a block, whatever is said around the block. -/
theorem takes_visitBody {outer : World → Prop} {d : Course outer} {w : World}
    (opens : Course.Opens (a.block k w.scopes.all.size) d w i false) :
    Takes d w (visitBody r i body) (Past (a.GivesAll k body)) :=
  .newScope opens (follows_visitAll lawful hr known _ opens.known)

/-- A round of a loop sets its variable and visits the body in a block of its own. -/
theorem follows_round (loop : ScopeId) (var : String) {v : Value} (hv : a.value v) :
    Follows (a.block k loop) (round r loop var body v) (Past (a.GivesAll k body)) :=
  .next (.modifyScopes fun _ hw => lawful.moves.round k var hw hv) fun _ _ _ hw =>
    takes_visitBody lawful hr known (lawful.moves.reopens k hw)

omit hr known in
/-- What the rounds of a loop become, one after the other. -/
theorem gives_rounds {info : Info} {head : Head} (visited : a.visited k (.plain info head body))
    (control : head.kind.isControl) {before : List Node}
    (h : a.gives k (.plain info head body) before) {values : List Value}
    {rounds : List (List Node)}
    (each : List.Forall₂ (fun _ => a.GivesAll k body) values rounds) :
    a.gives k (.plain info head body) (before ++ rounds.flatten) := by
  induction each generalizing before with
  | nil => rwa [List.flatten_nil, List.append_nil]
  | cons once _ ih =>
    rw [List.flatten_cons, ← List.append_assoc]
    exact ih (lawful.makes.again visited control h once)

/-- The rounds of a loop over some values. -/
theorem follows_rounds {info : Info} {head : Head} (visited : a.visited k (.plain info head body))
    (control : head.kind.isControl) (loop : ScopeId) (var : String) {values : List Value}
    (hv : ∀ v ∈ values, a.value v) :
    Follows (a.block k loop)
      (values.mapM (round r loop var body) >>= fun rounds => pure rounds.flatten)
      (Past (a.gives k (.plain info head body))) :=
  .bind (.mapM_past fun v m => follows_round lawful hr known loop var (hv v m))
    fun _ _ ⟨same, each⟩ => .pure ⟨by rw [same, List.append_nil],
      gives_rounds lawful visited control (lawful.makes.gone visited) each⟩

end Bodies

/-! ### Statements -/

section Statements

variable {k : κ}

section

variable {info : Info} {head : Head} {cs : List Node} (visited : a.visited k (.plain info head cs))

include lawful visited

/-- Whatever it is, it may leave nothing. -/
theorem follows_gone :
    Follows (a.node k (.plain info head cs) i) (pure []) (Past (a.gives k (.plain info head cs))) :=
  .pure ⟨rfl, lawful.makes.gone visited⟩

/-- What is not gone into. -/
theorem follows_leaf {head' : Head} (resolves : head.Resolves head') (leaf : head.entered = false)
    (other : head.kind ≠ .flush) :
    Follows (a.node k (.plain info head cs) i) (pure [.plain info.apart head' cs])
      (Past (a.gives k (.plain info head cs))) :=
  fun _ hw => .step rfl hw (lawful.moves.leaf visited resolves leaf other hw)
    ⟨rfl, lawful.makes.leaf visited resolves leaf⟩

/-- An expression within a node. -/
theorem expression_le : a.expression i ≤ a.node k (.plain info head cs) i :=
  lawful.moves.expression_le_node i visited

include hr

/-- A loop over some values, in the block around all rounds. -/
theorem follows_loop (control : head.kind.isControl) (var : String) {values : List Value}
    (hv : ∀ v ∈ values, a.value v) :
    Follows (a.node k (.plain info head cs) i)
      (newBlock i >>= fun loop =>
        values.mapM (round r loop var cs) >>= fun rounds => pure rounds.flatten)
      (Past (a.gives k (.plain info head cs))) := by
  intro w hw
  have opens := lawful.moves.opens visited hw
  have inside := lawful.visits.inside visited (by rw [control, Bool.or_true])
  exact .newScope opens (follows_rounds lawful hr inside visited control _ var hv _ opens.known)

/-- A loop with a test goes round until the test fails or the rounds are used up. -/
theorem follows_whileRounds (control : head.kind.isControl) {test : Option Expr}
    (ht : a.Required test) (n : Nat) (found : List (List Node))
    (before : a.gives k (.plain info head cs) found.reverse.flatten) :
    Follows (a.node k (.plain info head cs) i) (whileRounds r i test cs n found)
      fun ms ns => ms = found.reverse.flatten ++ ns ∧ a.gives k (.plain info head cs) ms := by
  have le := expression_le (i := i) lawful visited
  have inside := lawful.visits.inside visited (by rw [control, Bool.or_true])
  induction n generalizing found with
  | zero => exact .throw fun w hw => le.2 _ _ _ (lawful.moves.exhausted hw)
  | succ n ih =>
    refine .next ((follows_required lawful hr ht).weaken le) fun v _ => ?_
    split
    · refine .past (fun w hw => takes_visitBody lawful hr inside (lawful.moves.opens visited hw))
        fun ms once => ?_
      have all : (ms :: found).reverse.flatten = found.reverse.flatten ++ ms := by
        rw [List.reverse_cons, List.flatten_append, List.flatten_singleton]
      have rest := ih (ms :: found) (all ▸ lawful.makes.again visited control before once)
      rw [all] at rest
      simpa only [List.append_assoc] using rest
    · exact .pure ⟨(List.append_nil _).symm, before⟩

omit hr in
/-- A node around what is made of its body. -/
theorem takes_around {head' : Head} (resolves : head.Resolves head') (entered : head.entered)
    (other : head.kind ≠ .buffer) (selectors : ∀ s ∈ head'.selectors?, a.selector s) {w : World}
    (hw : a.known i w) {x : Eval (List Node)}
    (hx : Takes (a.node k (.plain info head cs) i) w x (Past (a.GivesAll k cs))) :
    Takes (a.node k (.plain info head cs) i) w
      (x >>= fun children => pure [.plain info.apart head' children])
      (Past (a.gives k (.plain info head cs))) := by
  refine hx.finish fun ms ns w' hw' going ⟨same, given⟩ => ?_
  subst same
  exact ⟨_, _, rfl, hw', lawful.moves.around visited resolves entered other hw going, rfl,
    lawful.makes.block visited resolves entered rfl selectors given⟩

/-- A node around its body. -/
theorem follows_around {head' : Head} (resolves : head.Resolves head') (entered : head.entered)
    (other : head.kind ≠ .buffer) (selectors : ∀ s ∈ head'.selectors?, a.selector s) :
    Follows (a.node k (.plain info head cs) i)
      (visitBody r i cs >>= fun children => pure [.plain info.apart head' children])
      (Past (a.gives k (.plain info head cs))) := by
  have inside := lawful.visits.inside visited (by rw [entered, Bool.true_or])
  exact fun w hw => takes_around lawful visited resolves entered other selectors hw
    (takes_visitBody lawful hr inside (lawful.moves.opens visited hw))

end

/-! ### Notes and buffers -/

section

variable {n : Node} (visited : a.visited k n)

include lawful visited

/-- What a statement tells is nothing but a note. -/
theorem follows_note {level : Level} (other : level ≠ .info) (stage : Stage) (text : String) :
    Follows (a.node k n i) (Eval.note level stage text) (PastNone fun _ => True) := by
  intro w hw
  let note : Note := { level, stage, text }
  obtain ⟨hw', going⟩ : Conduct.Allows (a.node k n i) w { w with log := w.log.push note } :=
    lawful.moves.notes visited other hw
  exact .step rfl hw' going ⟨rfl, trivial⟩

/-- Details that are told one after the other are allowed like each of them. -/
theorem allows_details {w : World} (hw : a.known i w) {log : Log} (h : Detailed w.log log) :
    Conduct.Allows (a.node k n i) w { w with log } := by
  induction h with
  | refl => exact ⟨hw, (a.node k n i).refl hw⟩
  | push h detail ih =>
    obtain ⟨hw', going⟩ := ih
    obtain ⟨hw'', going'⟩ := lawful.moves.notes visited (by rw [detail]; decide) hw'
    exact ⟨hw'', (a.node k n i).trans hw going hw' going'⟩

end

include lawful hr

/-- A buffer is captured, or its comments are dropped. -/
theorem follows_visitBuffer {info : Info} {name : BufferName} {cs : List Node}
    (visited : a.visited k (.plain info (.buffer name) cs)) :
    Follows (a.node k (.plain info (.buffer name) cs) i) (visitBuffer r i info.apart name cs)
      (Past (a.gives k (.plain info (.buffer name) cs))) := by
  have le := expression_le (i := i) lawful visited
  have inside := lawful.visits.inside visited rfl
  refine .next ((follows_resolveName lawful hr (lawful.visits.heads visited)).weaken le) ?_
  rintro _ ⟨text, rfl⟩ w hw
  have body := takes_visitBody lawful hr inside (lawful.moves.opens visited hw)
  refine body.finish fun ms ns w' hw' going ⟨same, given⟩ => ?_
  subst same
  simp only [outcome_bind, after_bind, outcome_scopes, after_scopes]
  by_cases comments : ms.all (·.kind == .comment)
  · obtain ⟨log, details, e⟩ := after_declareOnly (bufferScope w'.scopes i text) text w'
    rw [if_pos comments, outcome_declareOnly, e]
    obtain ⟨hw'', going'⟩ := lawful.moves.declares text visited hw hw' going comments
    obtain ⟨known, noted⟩ := allows_details (i := i) lawful visited hw'' details
    exact ⟨_, _, rfl, known, (a.node k _ i).trans hw going' hw'' noted, rfl,
      lawful.makes.gone visited⟩
  · obtain ⟨log, details, e⟩ := after_capture (bufferScope w'.scopes i text) text info.apart
      { name with resolved := some text } ms w'
    rw [if_neg comments, outcome_capture, e]
    obtain ⟨hw'', going'⟩ := lawful.moves.captures text visited hw hw' going given
    obtain ⟨known, noted⟩ := allows_details (i := i) lawful visited hw'' details
    exact ⟨_, _, rfl, known, (a.node k _ i).trans hw going' hw'' noted, rfl,
      lawful.makes.block visited (.buffer name _) rfl rfl nofun given⟩

/-- A flush takes what is in its entry and goes into the history. -/
theorem follows_visitFlush {info : Info} {name : BufferName} {old : List GroupId} {cs : List Node}
    (visited : a.visited k (.plain info (.flush name old) cs)) :
    Follows (a.node k (.plain info (.flush name old) cs) i) (visitFlush r i info.apart name cs)
      (Past (a.gives k (.plain info (.flush name old) cs))) := by
  have le := expression_le (i := i) lawful visited
  refine .next ((follows_resolveName lawful hr (lawful.visits.heads visited)).weaken le) ?_
  rintro _ ⟨text, rfl⟩ w hw
  obtain ⟨log, details, e⟩ := after_noteUnknown w.scopes i text w
  obtain ⟨known, noted⟩ := allows_details (i := i) lawful visited hw details
  obtain ⟨hw', going⟩ := lawful.moves.flushes text visited known
  have given := lawful.makes.leaf visited
    (.flush name { name with resolved := some text } old ((w.scopes.buffer? i text).getD [])) rfl
  refine .step ?_ ?_ ?_ (⟨rfl, given⟩ : Past _ _ _)
  · simp only [outcome_bind, outcome_scopes, after_scopes, outcome_noteUnknown, outcome_record,
      outcome_pure]
  · simp only [after_bind, outcome_scopes, after_scopes, outcome_noteUnknown, e, outcome_record,
      after_record, after_pure]
    exact hw'
  · simp only [after_bind, outcome_scopes, after_scopes, outcome_noteUnknown, e, outcome_record,
      after_record, after_pure]
    exact (a.node k _ i).trans hw noted known going

/-! ### Inclusions -/

/-- An inclusion of a mixin, in the scope that is made for it, with the selectors of any place. -/
theorem takes_includeMixin {outer : World → Prop} {c : Course outer}
    {w : World} {d : Definition}
    (opens : Course.Opens (a.inclusion w.scopes.all.size) c w d.scope true)
    (defaults : a.Defaults d.params) (visited : ∀ n ∈ d.body, a.visited a.mixin n)
    {args : List Value} {keywords : List (String × Value)} (positional : ∀ v ∈ args, a.value v)
    (named : ∀ k ∈ keywords, a.value k.2) (site : ScopeId) :
    Takes c w (includeMixin r site d args keywords) (Past (a.GivesAll a.mixin d.body)) := by
  have le := lawful.moves.block_le_inclusion w.scopes.all.size
  unfold includeMixin
  rw [bind_bind]
  refine .newScope opens ((((follows_bindArguments lawful hr defaults positional named).weaken
    (lawful.moves.call_le_inclusion _)).next fun _ _ => .scopes_bind fun v hv => ?_) _ opens.known)
  obtain ⟨hv', selecting⟩ := lawful.moves.selects a.mixin hv (lawful.finds.selectors site hv)
  exact .next (P := fun _ => True) hv (.step rfl hv' (le.1 _ _ _ selecting) ⟨rfl, trivial⟩)
    fun _ u hu _ _ => (follows_visitAll lawful hr visited).weaken le u hu

/-- An inclusion becomes what the body of its mixin becomes. -/
theorem follows_visitInclusion {info : Info} {name : String} {args : List Expr}
    {keywords : List (String × Expr)} {cs : List Node}
    (visited : a.visited k (.plain info (.inclusion name args keywords) cs)) :
    Follows (a.node k (.plain info (.inclusion name args keywords) cs) i)
      (visitInclusion r i name args keywords)
      (Past (a.gives k (.plain info (.inclusion name args keywords) cs))) := by
  have le := expression_le (i := i) lawful visited
  obtain ⟨positional, named⟩ := lawful.visits.heads visited
  refine .scopes_bind fun w hw => ?_
  split
  · exact (follows_failWith lawful _).weaken le w hw
  · rename_i d found
    refine .bind_of_le le hw (follows_args hr positional w hw) ?_
    rintro vs _ w₁ hw₁ going ⟨rfl, hvs⟩
    refine .bind_of_le le hw₁ (follows_evalKeywords hr named w₁ hw₁) ?_
    rintro ks _ w₂ hw₂ going' ⟨rfl, hks⟩
    obtain ⟨defaults, inside⟩ := lawful.finds.mixins hw found
    have opens := lawful.moves.includes visited hw found hw₂
      ((a.expression i).trans hw going hw₁ going')
    exact (takes_includeMixin lawful hr opens defaults inside hvs hks i).mono
      fun ms ns ⟨same, given⟩ => ⟨same, lawful.makes.inclusion visited hw found given⟩

/-! ### Nodes -/

/-- A rule stands under the selectors that its own are resolved to. -/
theorem follows_visitRule {info : Info} {selector : Template} {old : Option (List String)}
    {cs : List Node} (visited : a.visited k (.plain info (.rule selector old) cs)) :
    Follows (a.node k (.plain info (.rule selector old) cs) i)
      (visitPlain r i info.apart (.rule selector old) cs)
      (Past (a.gives k (.plain info (.rule selector old) cs))) := by
  have le := expression_le (i := i) lawful visited
  have inside := lawful.visits.inside visited rfl
  refine .next ((follows_fill lawful hr (lawful.visits.heads visited)).weaken le) fun text _ =>
    .scopes_bind fun w hw => ?_
  refine .next hw ((?_ : Follows (a.expression i) _ (PastNone fun found =>
    Selector.resolve text (w.scopes.selector? i) = .ok found)).weaken le w hw) ?_
  · cases Selector.resolve text (w.scopes.selector? i) with
    | ok found => exact .pure ⟨rfl, rfl⟩
    | error cause => exact follows_failWith lawful cause
  · intro selectors w' hw' _ found
    have complete := lawful.finds.resolve (lawful.finds.selectors i hw) found
    have known : ∀ s ∈ some selectors, a.selector s :=
      fun s hs => Option.mem_some_iff.1 hs ▸ complete
    have opens := lawful.moves.opens visited hw'
    have block : Takes (a.node k (.plain info (.rule selector old) cs) i) w'
        (newBlock i >>= fun inner => do
          Eval.modifyScopes fun s => s.setSelector inner (some selectors)
          visitBody r inner cs) (Past (a.GivesAll k cs)) :=
      .newScope opens (.next (P := fun _ => True) opens.known (.step rfl
        (lawful.moves.selects k opens.known known).1 (lawful.moves.selects k opens.known known).2
        ⟨rfl, trivial⟩) fun _ _ hv _ _ =>
          takes_visitBody lawful hr inside (lawful.moves.reopens k hv))
    have body := takes_around lawful visited
      (.rule selector old (Selector.ne_nil_of_resolve found)) rfl nofun known hw' block
    simpa only [bind_assoc] using body

/-- **Statements keep to a lawful conduct** if the evaluators that they call do. -/
theorem follows_visitPlain {info : Info} {head : Head} {cs : List Node}
    (visited : a.visited k (.plain info head cs)) :
    Follows (a.node k (.plain info head cs) i) (visitPlain r i info.apart head cs)
      (Past (a.gives k (.plain info head cs))) := by
  have le := expression_le (i := i) lawful visited
  have gone := follows_gone (i := i) lawful visited
  have admits := lawful.visits.heads visited
  cases head with
  | root => exact follows_around lawful hr visited .root rfl nofun nofun
  | rule selector old => exact follows_visitRule lawful hr visited
  | declaration name value oldName oldValue =>
    refine .next ((follows_fill lawful hr admits.1).weaken le) fun _ _ => ?_
    refine .next ((follows_optional lawful hr admits.2).weaken le) fun v hv => ?_
    refine .next ((follows_lift lawful (lawful.computes.css hv)).weaken le) fun text _ => ?_
    split
    · exact gone
    · exact follows_leaf lawful visited (.declaration name value oldName oldValue _ _) rfl nofun
  | directive prelude old hasBlock =>
    refine .next ((follows_fillCollapsed lawful hr admits).weaken le) fun text _ => ?_
    cases hasBlock with
    | true =>
      exact follows_around lawful hr visited (.directive prelude old true text) rfl nofun nofun
    | false => exact follows_leaf lawful visited (.directive prelude old false text) rfl nofun
  | media query old =>
    exact .next ((follows_fillCollapsed lawful hr admits).weaken le) fun text _ =>
      follows_around lawful hr visited (.media query old text) rfl nofun nofun
  | supports condition old =>
    exact .next ((follows_fillCollapsed lawful hr admits).weaken le) fun text _ =>
      follows_around lawful hr visited (.supports condition old text) rfl nofun nofun
  | importSheet uri => exact follows_leaf lawful visited (.importSheet uri) rfl nofun
  | extend selector old =>
    exact .next ((follows_fillCollapsed lawful hr admits).weaken le) fun text _ =>
      follows_leaf lawful visited (.extend selector old text) rfl nofun
  | comment text silent =>
    cases silent with
    | true => exact gone
    | false => exact follows_leaf lawful visited (.comment text) rfl nofun
  | assignment name value guarded =>
    refine .scopes_bind fun w hw => (?_ : Follows _ _ _) w hw
    extract_lets kept
    split
    · exact gone
    · refine .next ((follows_required lawful hr admits).weaken le) fun v hv => ?_
      exact .next (.modifyScopes fun _ hw => lawful.moves.assigns visited hw hv) fun _ _ => gone
  | forLoop var start stop exclusive =>
    obtain ⟨first, last, whole⟩ := admits
    refine .next ((follows_required lawful hr first).weaken le) fun v hv => ?_
    refine .next ((follows_bound lawful hv _).weaken le) fun from' _ => ?_
    refine .next ((follows_required lawful hr last).weaken le) fun u hu => ?_
    refine .next ((follows_bound lawful hu _).weaken le) fun to' _ => ?_
    simp only [forRounds_eq_mapM, List.reverse_nil, List.nil_append]
    refine follows_loop lawful hr visited rfl var fun v hv => ?_
    obtain ⟨i, rfl⟩ := exists_of_mem_counted hv
    exact whole i _
  | eachLoop var list =>
    refine .next ((follows_required lawful hr admits).weaken le) fun v hv => ?_
    exact follows_loop lawful hr visited rfl var (lawful.computes.items hv)
  | whileLoop test =>
    exact follows_whileRounds lawful hr visited rfl admits r.rounds []
      (lawful.makes.gone visited)
  | mixin name params =>
    exact .next (.modifyScopes fun _ hw => lawful.moves.definesMixin visited hw) fun _ _ => gone
  | inclusion name args keywords => exact follows_visitInclusion lawful hr visited
  | function name params =>
    exact .next (.modifyScopes fun _ hw => lawful.moves.definesFunction visited hw) fun _ _ => gone
  | result value =>
    exact .next ((follows_required lawful hr admits).weaken le) fun v hv =>
      .throw fun _ hw => lawful.moves.returns visited hw hv
  | debug value =>
    refine .next ((follows_required lawful hr admits).weaken le) fun v hv => ?_
    refine .next ((follows_lift lawful (lawful.computes.plain hv)).weaken le) fun text _ => ?_
    exact .next (follows_note lawful visited (by decide) _ _) fun _ _ => gone
  | warn value =>
    refine .next ((follows_required lawful hr admits).weaken le) fun v hv => ?_
    refine .scopes_bind fun w hw => (?_ : Follows _ _ _) w hw
    split
    · exact gone
    · refine .next ((follows_lift lawful (lawful.computes.plain hv)).weaken le) fun text _ => ?_
      exact .next (follows_note lawful visited (by decide) _ _) fun _ _ => gone
  | buffer name => exact follows_visitBuffer lawful hr visited
  | flush name old => exact follows_visitFlush lawful hr visited

/-- An `@if` becomes what the first clause that holds becomes. -/
theorem follows_visitCond {info : Info} {test : Option Expr} {cs : List Node} {o : Option Node}
    (visited : a.visited k (.cond info test cs o)) :
    Follows (a.node k (.cond info test cs o) i) (visitCond r i test cs o)
      (Past (a.gives k (.cond info test cs o))) := by
  obtain ⟨inside, clause⟩ := lawful.visits.clause visited
  have le := lawful.moves.expression_le_node i visited
  refine .next ((follows_testHolds hr (lawful.visits.tests visited)).weaken le) fun holds _ => ?_
  split
  · intro w hw
    exact (takes_visitBody lawful hr inside (lawful.moves.opens visited hw)).mono
      fun ms ns ⟨same, given⟩ => ⟨same, lawful.makes.clause visited given⟩
  · cases o with
    | none => exact .pure ⟨rfl, lawful.makes.gone visited⟩
    | some n =>
      exact ((hr.visit i (clause n rfl)).weaken (lawful.moves.clause_le_node i visited)).mono
        fun ms ns ⟨same, given⟩ => ⟨same, lawful.makes.otherwise visited given⟩

/-- **A visit keeps to a lawful conduct** if the evaluators that it calls do, and what it comes upon
may leave its node. -/
theorem follows_visitNode {n : Node} (visited : a.visited k n)
    (leaves : Course.Leaves n.info.span (a.node k n i) (a.visit k n i)) :
    Follows (a.visit k n i) (visitNode r i n) (Past (a.gives k n)) := by
  refine .locate ?_ leaves
  match n with
  | .plain info head cs => exact follows_visitPlain lawful hr visited
  | .cond info test cs o => exact follows_visitCond lawful hr visited

end Statements

/-- The store that an evaluation starts from holds nothing. -/
theorem start_field {β : Type} (p : Scope → β)
    (h : ∀ ancestors options owns, p { ancestors, options, ownsBuffers := owns } = p {})
    (options : Options) (log : Log) (i : ScopeId) :
    p ((start options #[] log).2.scopes.get i) = p {} := by
  show p ((Scopes.add {} none (some options) none).2.get i) = p {}
  rw [Scopes.get_add_field p h, Scopes.get_of_size_le (Nat.zero_le i)]

end Evaluation

/-- **Evaluators keep to a lawful conduct**, however deep they go. -/
theorem Recursion.conducted_ofDepth {κ : Type} {a : Conduct κ} (lawful : a.Lawful)
    (leaves : a.Leaves) (n : Nat) : (ofDepth n).Conducted a := by
  induction n with
  | zero =>
    refine ⟨fun i _ _ => .throw fun _ hw => lawful.moves.exhausted hw, fun i k n visited => ?_⟩
    refine .throw fun w hw => (leaves i visited).exhausted ?_
    exact (lawful.moves.expression_le_node i visited).2 _ _ _ (lawful.moves.exhausted hw)
  | succ n ih =>
    exact ⟨fun _ _ => Evaluation.follows_evalExpr lawful ih,
      fun i _ _ visited => Evaluation.follows_visitNode lawful ih visited (leaves i visited)⟩

end Stylesheet
