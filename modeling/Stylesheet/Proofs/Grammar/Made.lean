/-
# What is made of a text

The statements of a text are built of one another, each at the place where it starts.
`Grammar.Makes place fits refuses` says of a property of nodes that whatever is built at a
place of some kind has it if what it is built of does, and of a property of refusals that
every refusal at such a place has it.  Then all that any rule of the grammar reads has them
(`Grammar.closed_made`).
-/

import Stylesheet.Proofs.Grammar.Sound
import Stylesheet.Proofs.Node.Written
import Stylesheet.Proofs.Value.Range

namespace Stylesheet

/-- Whether what is built, if it is not refused, fits. -/
abbrev Built.Fits {α : Type} (fits : α → Prop) (b : Built α) : Prop :=
  Ends (fun _ => True) b fits

/-- The place that a cursor is at. -/
def Cursor.span (c : Cursor) : Span :=
  { file := c.file, line := c.line }

/-- Whether the nodes and refusals that a rule reads fit. -/
def Rule.Made (fits : Node → Prop) (refuses : Diagnostic → Prop) : {α : Type} → Rule α → α → Prop
  | _, .sheet, b | _, .block, b => Ends refuses b fun ns => ∀ n ∈ ns, fits n
  | _, .statement, b => Ends refuses b fun o => ∀ n ∈ o, fits n
  | _, .bufferBody, o | _, .flushBody, o | _, .directiveBody, o =>
    ∀ b ∈ o, Ends refuses b fun ns => ∀ n ∈ ns, fits n
  | _, .comment, n | _, .loudComment, n | _, .silentComment, n | _, .assignment, n
  | _, .importStatement, n | _, .extend, n | _, .inclusion, n | _, .returnStatement, n
  | _, .debug, n | _, .warn, n | _, .declaration, n => fits n
  | _, .buffer, b | _, .flush, b | _, .badBuffer, b | _, .ifStatement, b | _, .elseClause, b
  | _, .forStatement, b | _, .eachStatement, b | _, .whileStatement, b | _, .media, b
  | _, .supports, b | _, .mixinDefinition, b | _, .functionDefinition, b | _, .directive, b
  | _, .rule, b => Ends refuses b fits
  | _, _, _ => True

namespace Grammar

open Peg (ReadsFrom)

/-- Whether what is built at a place fits if what it is built of does, and what is refused
there is refused as it may be. -/
structure Makes (place : Span → Prop) (fits : Node → Prop) (refuses : Diagnostic → Prop) :
    Prop where
  leaf : ∀ {s head}, place s → head.fresh → (head.kind != .root) → fits (leaf head s)
  branch : ∀ {s head ns}, place s → head.fresh → head.hasBody → (∀ n ∈ ns, fits n) →
    fits (.plain (infoAt s) head ns)
  clause : ∀ {s test ns}, place s → (∀ n ∈ ns, fits n) → fits (.cond (infoAt s) test ns none)
  addElse : ∀ {n clause}, fits n → fits clause → fits (n.addElse clause)
  refusal : ∀ {s cause}, place s → refuses { cause, span := s }

variable {α : Type} {fits : Node → Prop} {refuses : Diagnostic → Prop}

/-- What holds of every clause of an `@if` and survives another one. -/
theorem foldl_addElse (step : ∀ n clause, fits n → fits clause → fits (n.addElse clause))
    {n : Node} {clauses : List Node} (h : fits n) (k : ∀ c ∈ clauses, fits c) :
    fits (clauses.foldl (fun n clause => n.addElse clause) n) := by
  induction clauses generalizing n with
  | nil => exact h
  | cons c clauses ih =>
    exact ih (step n c h (k c List.mem_cons_self)) fun d hd => k d (List.mem_cons_of_mem c hd)

/-- What is built of parts that are all built. -/
theorem ends_parts {found : List (Built α)} {fits : α → Prop}
    (h : ∀ b ∈ found, Ends refuses b fits) :
    Ends refuses (found.mapM id) fun as => ∀ a ∈ as, fits a := by
  induction found with
  | nil => exact .ok nofun
  | cons b found ih =>
    rw [List.mapM_cons]
    refine (h b List.mem_cons_self).bind fun a ha => ?_
    refine (ih fun b hb => h b (List.mem_cons_of_mem _ hb)).bind fun as has => .ok ?_
    exact List.forall_mem_cons.2 ⟨ha, has⟩

/-- Statements end well if each of them does. -/
theorem ends_statements {found : List (Built (Option Node))}
    (h : ∀ b ∈ found, Ends refuses b fun o => ∀ n ∈ o, fits n) :
    Ends refuses (statements found) fun ns => ∀ n ∈ ns, fits n := by
  refine (ends_parts h).bind fun nodes all => .ok fun n hn => ?_
  obtain ⟨o, ho, e⟩ := List.mem_filterMap.1 hn
  exact all o ho n e

/-- A body that may be absent. -/
theorem ends_getD {fits : List Node → Prop} (none : fits []) {o : Option (Built (List Node))}
    (h : ∀ b ∈ o, Ends refuses b fits) : Ends refuses (o.getD (.ok [])) fits := by
  cases o with
  | none => exact .ok none
  | some b => exact h b rfl

section

variable {rules : Peg.Rules Rule} {good : Cursor → Prop} {n : Nat}

/-- What is built from a good place. -/
theorem reads_stamped_at {p : Peg Rule (Span → α)} {fits : α → Prop}
    (h : ReadsFrom good rules n p fun build => ∀ c, good c → fits (build c.span)) :
    ReadsFrom good rules n (stamped p) fits :=
  .map (.located_at h)

/-- What is built from any place. -/
theorem reads_stamped {p : Peg Rule (Span → α)} {fits : α → Prop}
    (h : ReadsFrom good rules n p fun build => ∀ s, fits (build s)) :
    ReadsFrom good rules n (stamped p) fits :=
  .map (.located (h.mono fun _ fit s => fit s))

/-- What is given, whatever it is read from. -/
theorem reads_given {β : Type} {p : Peg Rule α} {f : α → β} {fits : β → Prop}
    (h : ∀ a, fits (f a)) : ReadsFrom good rules n (f <$> p) fits :=
  .map (.mono .any fun a _ => h a)

/-- A rule that never refuses its node, read as a statement. -/
theorem reads_always {p : Peg Rule Node} (h : ReadsFrom good rules n p fits) :
    ReadsFrom good rules n (always p) fun b => Ends refuses b fun o => ∀ m ∈ o, fits m :=
  .map (h.mono fun _ fit => .ok fun _ hm => Option.mem_some_iff.1 hm ▸ fit)

/-- A rule that may refuse its node, read as a statement. -/
theorem reads_built {p : Peg Rule (Built Node)}
    (h : ReadsFrom good rules n p fun b => Ends refuses b fits) :
    ReadsFrom good rules n (built p) fun b => Ends refuses b fun o => ∀ m ∈ o, fits m := by
  refine .map (h.mono fun b fit => ?_)
  cases fit with
  | ok fit => exact .ok fun _ hm => Option.mem_some_iff.1 hm ▸ fit
  | error h => exact .error h

/-- A block that may be absent. -/
theorem reads_block {fits : List Node → Prop}
    (h : ReadsFrom good rules n (on .block) fun b => Ends refuses b fits) :
    ReadsFrom good rules n optionalBlock fun o => ∀ b ∈ o, Ends refuses b fits := by
  refine .alt (.map (h.mono fun b fit b' hb => ?_)) (.map (.mono .any fun _ _ b hb => ?_))
  · cases Option.mem_some_iff.1 hb
    exact fit
  · cases hb

variable [Peg.Lasting good rules] {place : Span → Prop}

/-- A statement is whatever one of the rules for statements reads. -/
theorem reads_statement (calls : ∀ {α : Type} (r : Rule α),
      ReadsFrom good rules n (on r) (r.Made fits refuses)) :
    ReadsFrom good rules n (body .statement) (Rule.statement.Made fits refuses) := by
  refine .left (.alt (reads_given fun _ => .ok nofun) ?_)
  exact .alt (reads_always (calls .comment)) <| .alt (reads_built (calls .buffer)) <|
    .alt (reads_built (calls .flush)) <| .alt (reads_built (calls .badBuffer)) <|
    .alt (reads_always (calls .assignment)) <| .alt (reads_built (calls .ifStatement)) <|
    .alt (reads_built (calls .forStatement)) <| .alt (reads_built (calls .eachStatement)) <|
    .alt (reads_built (calls .whileStatement)) <| .alt (reads_built (calls .media)) <|
    .alt (reads_built (calls .supports)) <| .alt (reads_always (calls .importStatement)) <|
    .alt (reads_always (calls .extend)) <| .alt (reads_always (calls .inclusion)) <|
    .alt (reads_built (calls .mixinDefinition)) <|
    .alt (reads_built (calls .functionDefinition)) <|
    .alt (reads_always (calls .returnStatement)) <| .alt (reads_always (calls .debug)) <|
    .alt (reads_always (calls .warn)) <| .alt (reads_built (calls .directive)) <|
    .alt (reads_always (calls .declaration)) (reads_built (calls .rule))

section

variable (makes : Makes place fits refuses)

include makes

/-- A node with a block ends as the statements of its block do. -/
theorem Makes.ends_branch {head : Head} (fresh : head.fresh) (body : head.hasBody)
    {b : Built (List Node)} (h : Ends refuses b fun ns => ∀ n ∈ ns, fits n) {s : Span}
    (hs : place s) : Ends refuses (Grammar.branch head b s) fits :=
  h.bind fun _ inside => .ok (makes.branch hs fresh body inside)

/-- A directive may have no block. -/
theorem Makes.ends_directive (prelude : Template) {body : Option (Built (List Node))}
    (h : ∀ b ∈ body, Ends refuses b fun ns => ∀ n ∈ ns, fits n) {s : Span} (hs : place s) :
    Ends refuses (Grammar.branch (.directive prelude none body.isSome) (body.getD (.ok [])) s)
      fits := by
  cases body with
  | none => exact .ok (makes.leaf hs rfl rfl)
  | some b => exact makes.ends_branch rfl rfl (h b rfl) hs

/-- A flush with a block is refused. -/
theorem Makes.ends_flush (name : Template) {body : Option (Built (List Node))}
    (h : ∀ b ∈ body, Ends refuses b fun ns => ∀ n ∈ ns, fits n) {s : Span} (hs : place s) :
    Ends refuses (flushOf name body s) fits := by
  cases body with
  | none => exact .ok (makes.leaf hs rfl rfl)
  | some b => exact (h b rfl).bind fun _ _ => .error (makes.refusal hs)

/-- An `@else` clause ends as the statements of its block do. -/
theorem Makes.ends_clause (test : Option Expr) {body : Built (List Node)}
    (h : Ends refuses body fun ns => ∀ n ∈ ns, fits n) {s : Span} (hs : place s) :
    Ends refuses (do let children ← body; return Node.cond (infoAt s) test children none) fits :=
  h.bind fun _ inside => .ok (makes.clause hs inside)

/-- An `@if` ends as its block and its clauses do. -/
theorem Makes.ends_if (test : Expr) {body : Built (List Node)}
    (h : Ends refuses body fun ns => ∀ n ∈ ns, fits n) {clauses : List (Built Node)}
    (hc : ∀ c ∈ clauses, Ends refuses c fits) {s : Span} (hs : place s) :
    Ends refuses (ifOf test body clauses s) fits :=
  h.bind fun _ inside => (ends_parts hc).bind fun _ others =>
    .ok (foldl_addElse (fun _ _ => makes.addElse) (makes.clause hs inside) others)

end

/-- A rule reads what fits, if the rules that it calls do. -/
theorem reads_made (makes : Makes place fits refuses) (here : ∀ c, good c → place c.span)
    (calls : ∀ {α : Type} (r : Rule α),
      ReadsFrom good rules n (on r) (r.Made fits refuses)) {α : Type} (r : Rule α) :
    ReadsFrom good rules n (body r) (r.Made fits refuses) := by
  have inside := (calls .statement).star.mono fun _ h => ends_statements h
  have leaf {β : Type} {p : Peg Rule β} {head : β → Head} (fresh : ∀ b, (head b).fresh)
      (inner : ∀ b, (head b).kind != .root) : ReadsFrom good rules n
        ((fun b => Grammar.leaf (head b)) <$> p) fun build => ∀ c, good c → fits (build c.span) :=
    reads_given fun b c hc => makes.leaf (here c hc) (fresh b) (inner b)
  cases r with
  | sheet => exact .map (.right inside)
  | block => exact .map (.left (.right inside))
  | statement => exact reads_statement calls
  | bufferBody | flushBody | directiveBody => exact reads_block (calls .block)
  | comment => exact .alt (calls .loudComment) (calls .silentComment)
  | loudComment | silentComment | importStatement | extend | returnStatement | debug | warn =>
    exact reads_stamped_at (leaf (fun _ => rfl) fun _ => rfl)
  | inclusion | declaration =>
    exact reads_stamped_at
      (.app_any (reads_given fun _ _ c hc => makes.leaf (here c hc) rfl rfl))
  | assignment =>
    exact reads_stamped_at
      (.app_any (.app_any (reads_given fun _ _ _ c hc => makes.leaf (here c hc) rfl rfl)))
  | buffer =>
    exact reads_stamped_at (.app (calls .bufferBody).right (reads_given fun _ _ h c hc =>
      makes.ends_branch rfl rfl (ends_getD nofun h) (here c hc)))
  | flush =>
    exact reads_stamped_at (.app (calls .flushBody).right (reads_given fun name _ h c hc =>
      makes.ends_flush name h (here c hc)))
  | badBuffer =>
    exact reads_stamped_at (reads_given fun _ c hc => .error (makes.refusal (here c hc)))
  | ifStatement =>
    exact reads_stamped_at (.app (calls .elseClause).star (.app (calls .block)
      (reads_given fun test _ h _ hc c here' => makes.ends_if test h hc (here c here'))))
  | elseClause =>
    exact reads_stamped_at (.app (calls .block)
      (reads_given fun test _ h c hc => makes.ends_clause test h (here c hc)))
  | forStatement =>
    exact reads_stamped_at (.app (calls .block) (.app_any (.app_any (.app_any
      (reads_given fun _ _ _ _ _ h c hc => makes.ends_branch rfl rfl h (here c hc))))))
  | eachStatement | mixinDefinition | functionDefinition =>
    exact reads_stamped_at (.app (calls .block) (.app_any
      (reads_given fun _ _ _ h c hc => makes.ends_branch rfl rfl h (here c hc))))
  | whileStatement | media | supports | rule =>
    exact reads_stamped_at (.app (calls .block)
      (reads_given fun _ _ h c hc => makes.ends_branch rfl rfl h (here c hc)))
  | directive =>
    exact reads_stamped_at (.app (calls .directiveBody) (.app_any
      (reads_given fun _ _ _ h c hc => makes.ends_directive _ h (here c hc))))
  | _ => exact .any

end

/-- **All that is read fits**, nodes and refusals. -/
theorem closed_made {good : Cursor → Prop} [Peg.Lasting good unaided] {place : Span → Prop}
    (makes : Makes place fits refuses) (here : ∀ c, good c → place c.span) :
    Closed good fun _ r => r.Made fits refuses :=
  fun _ => reads_made makes here

end Grammar

end Stylesheet
