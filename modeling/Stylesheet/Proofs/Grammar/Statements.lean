/-
# The statements of a text

`Document.statements file text` are the statements that are read of a text, one after the other
and one inside the other, in the order in which they start, each with its place and what it has
built.  If the text is accepted, what they have built, a lone semicolon apart, are the nodes of
the tree in the same order (`Document.builds_of_parse`), so that none of them has been refused.
-/

import Stylesheet.Proofs.Grammar.Lines
import Stylesheet.Proofs.Peg.Trace

namespace Stylesheet

namespace Node

mutual

/-- The nodes in a node: its children and what is in them, and so for the clauses after it. -/
def inside : Node → List Node
  | plain _ _ cs => insideAll cs
  | cond _ _ cs o => insideAll cs ++ insideOption o

/-- Some nodes and what is in them. -/
def insideAll : List Node → List Node
  | [] => []
  | n :: ns => n :: (n.inside ++ insideAll ns)

/-- What is in a clause that may be absent. -/
def insideOption : Option Node → List Node
  | none => []
  | some n => n.inside

end

/-- What is in two lists of nodes, one after the other. -/
theorem insideAll_append (ns ms : List Node) :
    insideAll (ns ++ ms) = insideAll ns ++ insideAll ms := by
  induction ns with
  | nil => rfl
  | cons n ns ih => rw [List.cons_append, insideAll, insideAll, ih, List.cons_append,
      List.append_assoc]

/-- Whether a node is an `@if`, or an `@else` clause, and so are the clauses after it. -/
def IsChain : Node → Prop
  | plain .. => False
  | cond _ _ _ none => True
  | cond _ _ _ (some o) => o.IsChain

/-- A chain of clauses goes on with a further clause. -/
theorem IsChain.addElse {n clause : Node} (h : n.IsChain) (added : clause.IsChain) :
    (n.addElse clause).IsChain := by
  match n with
  | .cond _ _ _ none => exact added
  | .cond _ _ _ (some o) => exact IsChain.addElse (n := o) h added

/-- A further clause adds what is in it. -/
theorem inside_addElse {n clause : Node} (h : n.IsChain) :
    (n.addElse clause).inside = n.inside ++ clause.inside := by
  match n with
  | .cond _ _ cs none => simp [Node.addElse, inside, insideOption]
  | .cond _ _ cs (some o) =>
    have inner : (o.addElse clause).inside = o.inside ++ clause.inside := inside_addElse h
    simp [Node.addElse, inside, insideOption, inner]

/-- What is in an `@if` with clauses. -/
theorem inside_foldl_addElse {n : Node} {clauses : List Node} (h : n.IsChain)
    (chains : ∀ c ∈ clauses, c.IsChain) :
    (clauses.foldl (fun n clause => n.addElse clause) n).inside =
      n.inside ++ clauses.flatMap inside := by
  induction clauses generalizing n with
  | nil => simp
  | cons c clauses ih =>
    obtain ⟨first, others⟩ := List.forall_mem_cons.1 chains
    rw [List.foldl_cons, ih (h.addElse first) others, inside_addElse h, List.flatMap_cons,
      List.append_assoc]

end Node

namespace Grammar

open Node (inside insideAll insideOption)
open Peg (Traces Reads)

/-- A statement that has been read. -/
abbrev Statement := Peg.Reading (Built (Option Node))

/-- What is noted of a rule: of statements what they build, of others nothing. -/
def noted : (α : Type) → Rule α → Option (α → Built (Option Node))
  | _, .statement => some id
  | _, _ => none

/-- Whether there may be statements in what a rule reads. -/
def hasStatements : (α : Type) → Rule α → Bool
  | _, .sheet | _, .statement | _, .block | _, .buffer | _, .bufferBody | _, .flush
  | _, .flushBody | _, .ifStatement | _, .elseClause | _, .forStatement | _, .eachStatement
  | _, .whileStatement | _, .media | _, .supports | _, .mixinDefinition
  | _, .functionDefinition | _, .directive | _, .directiveBody | _, .rule => true
  | _, _ => false

/-- A rule without statements notes nothing, and neither does anything it reads. -/
theorem still_of_not_hasStatements (α : Type) (r : Rule α) (h : hasStatements α r = false) :
    noted α r = none ∧ (unaided.body r).quiet hasStatements := by
  cases r <;> first | exact ⟨rfl, rfl⟩ | cases h

/-- Whether some statements build just some nodes, none of them being refused. -/
def Builds (ns : List Node) (found : List Statement) : Prop :=
  statements (found.map (·.value)) = .ok ns

/-- What the first statement builds comes before what the others build. -/
theorem statements_cons {b : Built (Option Node)} {found : List (Built (Option Node))}
    {ns : List Node} : statements (b :: found) = .ok ns ↔
      ∃ o others, b = .ok o ∧ statements found = .ok others ∧ ns = o.toList ++ others := by
  simp only [statements_eq_ok, parts_cons]
  constructor
  · rintro ⟨_, ⟨o, os, rfl, parts, rfl⟩, rfl⟩
    refine ⟨o, os.filterMap id, rfl, ⟨os, parts, rfl⟩, ?_⟩
    cases o <;> rfl
  · rintro ⟨o, _, rfl, ⟨os, parts, rfl⟩, rfl⟩
    refine ⟨o :: os, ⟨o, os, rfl, parts, rfl⟩, ?_⟩
    cases o <;> rfl

/-- As `statements_cons`, for statements that have been read. -/
theorem builds_cons {x : Statement} {found : List Statement} {ns : List Node} :
    Builds ns (x :: found) ↔
      ∃ o others, x.value = .ok o ∧ Builds others found ∧ ns = o.toList ++ others :=
  statements_cons

/-- Statements that are read one after the other build their nodes one after the other. -/
theorem Builds.append {ns ms : List Node} {found more : List Statement} (h : Builds ns found)
    (h' : Builds ms more) : Builds (ns ++ ms) (found ++ more) := by
  induction found generalizing ns with
  | nil =>
    cases h
    exact h'
  | cons x found ih =>
    obtain ⟨o, others, value, rest, rfl⟩ := builds_cons.1 h
    exact builds_cons.2 ⟨o, others ++ ms, value, ih rest, List.append_assoc ..⟩

/-- Statements that build nodes are all accepted. -/
theorem Builds.accepted {ns : List Node} {found : List Statement} (h : Builds ns found)
    {x : Statement} (hx : x ∈ found) : ∃ o, x.value = .ok o := by
  induction found generalizing ns with
  | nil => cases hx
  | cons y found ih =>
    obtain ⟨o, others, value, rest, -⟩ := builds_cons.1 h
    rcases List.mem_cons.1 hx with rfl | later
    · exact ⟨o, value⟩
    · exact ih rest later

/-- What is read, with the statements in it. -/
abbrev Tells {α : Type} (n : Nat) (p : Peg Rule α) (fits : α → List Statement → Prop) : Prop :=
  Traces unaided noted n p fits

variable {α β : Type} {n : Nat}

/-- What may have no statements in it tells of none. -/
theorem tells_quiet {p : Peg Rule α} (quiet : p.quiet hasStatements) {fits : α → Prop}
    (h : Reads unaided n p fits) : Tells n p fun a found => found = [] ∧ fits a :=
  .of_quiet still_of_not_hasStatements quiet h

/-- What comes before without statements adds nothing to tell. -/
theorem tells_right {p : Peg Rule α} {q : Peg Rule β} {fits : β → List Statement → Prop}
    (quiet : p.quiet hasStatements) (h : Tells n q fits) : Tells n (p *> q) fits := by
  refine .map (((tells_quiet quiet .any).seq h).mono ?_)
  rintro _ _ ⟨_, found, rfl, ⟨rfl, -⟩, fit⟩
  exact fit

/-- What comes after without statements adds nothing to tell. -/
theorem tells_left {p : Peg Rule α} {q : Peg Rule β} {fits : α → List Statement → Prop}
    (h : Tells n p fits) (quiet : q.quiet hasStatements) : Tells n (p <* q) fits := by
  refine .map ((h.seq (tells_quiet quiet .any)).mono ?_)
  rintro _ _ ⟨found, _, rfl, fit, rfl, -⟩
  rwa [List.append_nil]

/-- The place that is stamped adds nothing to tell. -/
theorem tells_stamped {p : Peg Rule (Span → α)} {fits : α → List Statement → Prop}
    (h : Tells n p fun build found => ∀ s, fits (build s) found) : Tells n (stamped p) fits :=
  .map (.located (h.mono fun _ _ fit s => fit s))

/-- A node in which nothing is. -/
theorem tells_leaf {p : Peg Rule Node} (quiet : p.quiet hasStatements)
    (h : Reads unaided n p fun m => m.inside = []) :
    Tells n p fun m found => Builds m.inside found := by
  refine (tells_quiet quiet h).mono ?_
  rintro m _ ⟨rfl, none⟩
  rw [none]
  rfl

/-- A node with a body, which the last part reads. -/
theorem tells_branch {g : Peg Rule (β → Span → Built Node)} {q : Peg Rule β}
    (body : β → Built (List Node)) (quiet : g.quiet hasStatements)
    (hg : Reads unaided n g fun f => ∀ b, ∃ head, f b = branch head (body b))
    (hq : Tells n q fun b found => ∀ ns, body b = .ok ns → Builds (insideAll ns) found) :
    Tells n (stamped (g <*> q)) fun b found => ∀ m, b = .ok m → Builds m.inside found := by
  refine tells_stamped ((tells_quiet quiet hg).app hq ?_)
  rintro f b _ found ⟨rfl, made⟩ content s m e
  obtain ⟨head, made⟩ := made b
  rw [made] at e
  obtain ⟨ns, built, rfl⟩ := branch_eq_ok.1 e
  exact content ns built

/-- A run of statements tells of each of them and of what is in it. -/
theorem tells_statements (h : Tells n (on .statement) fun b found => ∀ o, b = .ok o →
    Builds (insideAll o.toList) found) :
    Tells n (.star (on .statement)) fun bs found => ∀ ns, statements bs = .ok ns →
      Builds (insideAll ns) found := by
  refine .star h ?_ ?_
  · intro ns e
    cases e
    rfl
  · intro b bs found more first others ns e
    obtain ⟨o, ms, rfl, rest, rfl⟩ := statements_cons.1 e
    rw [Node.insideAll_append]
    exact (first o rfl).append (others ms rest)

/-- The clauses after an `@if`. -/
theorem tells_clauses (h : Tells n (on .elseClause) fun b found => ∀ m, b = .ok m →
    m.IsChain ∧ Builds m.inside found) :
    Tells n (.star (on .elseClause)) fun bs found => ∀ ms, bs.mapM id = .ok ms →
      (∀ m ∈ ms, m.IsChain) ∧ Builds (ms.flatMap inside) found := by
  refine .star h ?_ ?_
  · intro ms e
    cases e
    exact ⟨nofun, rfl⟩
  · intro b bs found more first others ms e
    obtain ⟨m, ms, rfl, rest, rfl⟩ := parts_cons.1 e
    obtain ⟨chain, here⟩ := first m rfl
    obtain ⟨chains, there⟩ := others ms rest
    exact ⟨List.forall_mem_cons.2 ⟨chain, chains⟩, here.append there⟩

end Grammar

/-- Whether the statements in what a rule has read build the nodes that are in it. -/
def Rule.Told : {α : Type} → Rule α → α → List Grammar.Statement → Prop
  | _, .sheet, b, found | _, .block, b, found =>
    ∀ ns, b = .ok ns → Grammar.Builds (Node.insideAll ns) found
  | _, .bufferBody, o, found | _, .flushBody, o, found | _, .directiveBody, o, found =>
    ∀ ns, o.getD (.ok []) = .ok ns → Grammar.Builds (Node.insideAll ns) found
  | _, .statement, b, found => ∀ o, b = .ok o → Grammar.Builds (Node.insideAll o.toList) found
  | _, .comment, n, found | _, .loudComment, n, found | _, .silentComment, n, found
  | _, .assignment, n, found | _, .importStatement, n, found | _, .extend, n, found
  | _, .inclusion, n, found | _, .returnStatement, n, found | _, .debug, n, found
  | _, .warn, n, found | _, .declaration, n, found => Grammar.Builds n.inside found
  | _, .elseClause, b, found => ∀ n, b = .ok n → n.IsChain ∧ Grammar.Builds n.inside found
  | _, .buffer, b, found | _, .flush, b, found | _, .badBuffer, b, found
  | _, .ifStatement, b, found | _, .forStatement, b, found | _, .eachStatement, b, found
  | _, .whileStatement, b, found | _, .media, b, found | _, .supports, b, found
  | _, .mixinDefinition, b, found | _, .functionDefinition, b, found
  | _, .directive, b, found | _, .rule, b, found =>
    ∀ n, b = .ok n → Grammar.Builds n.inside found
  | _, _, _, _ => True

namespace Grammar

open Node (inside insideAll insideOption)
open Peg (Traces Reads)

variable {n : Nat}

/-- A rule that always builds its node tells what is in the node. -/
theorem tells_always {p : Peg Rule Node} (h : Tells n p fun m found => Builds m.inside found) :
    Tells n (always p) fun b found => ∀ o, b = .ok o → Builds (insideOption o) found := by
  refine .map (h.mono fun m found fit o e => ?_)
  cases e
  exact fit

/-- As `tells_always`, for a rule that may refuse its node. -/
theorem tells_built {p : Peg Rule (Built Node)}
    (h : Tells n p fun b found => ∀ m, b = .ok m → Builds m.inside found) :
    Tells n (built p) fun b found => ∀ o, b = .ok o → Builds (insideOption o) found := by
  refine .map (h.mono fun b found fit o e => ?_)
  obtain ⟨m, rfl, rfl⟩ := map_some_eq_ok.1 e
  exact fit m rfl

/-- A block that may be absent. -/
theorem tells_optionalBlock (h : Tells n (on .block) (Rule.Told .block)) :
    Tells n optionalBlock fun o found => ∀ ns, o.getD (.ok []) = .ok ns →
      Builds (insideAll ns) found := by
  refine .alt (.map h) (.map ((tells_quiet rfl .any).mono ?_))
  rintro _ _ ⟨rfl, -⟩ ns ⟨⟩
  rfl

/-- A flush has nothing in it. -/
theorem tells_flush (h : Tells n (on .flushBody) (Rule.Told .flushBody)) :
    Tells n flush (Rule.Told .flush) := by
  have start : Reads unaided n (flushOf <$> (keyword "@flush" *> on .gap *> on .bufferName))
      fun f => ∃ name, f = flushOf name := reads_given fun name => ⟨name, rfl⟩
  refine tells_stamped ((tells_quiet rfl start).app (tells_right rfl h) ?_)
  rintro _ body _ found ⟨rfl, name, rfl⟩ content s m e
  obtain ⟨rfl, rfl⟩ := flushOf_eq_ok.1 e
  exact content [] rfl

/-- An `@if` tells of the statements in its block, and then of those in its clauses. -/
theorem tells_ifStatement (block : Tells n (on .block) (Rule.Told .block))
    (clause : Tells n (on .elseClause) (Rule.Told .elseClause)) :
    Tells n ifStatement (Rule.Told .ifStatement) := by
  have start : Reads unaided n (ifOf <$> (keyword "@if" *> on .gap *> on .commaList <* on .gap))
      fun f => ∃ test, f = ifOf test := reads_given fun test => ⟨test, rfl⟩
  have content : Tells n
      (ifOf <$> (keyword "@if" *> on .gap *> on .commaList <* on .gap) <*> on .block)
      fun f found => ∃ test body, f = ifOf test body ∧
        ∀ ns, body = .ok ns → Builds (insideAll ns) found := by
    refine (tells_quiet rfl start).app block ?_
    rintro _ body _ found ⟨rfl, test, rfl⟩ told
    exact ⟨test, body, rfl, told⟩
  refine tells_stamped (content.app (tells_clauses clause) ?_)
  rintro _ clauses found more ⟨test, body, rfl, told⟩ others s m e
  obtain ⟨cs, ms, rfl, parts, rfl⟩ := ifOf_eq_ok.1 e
  obtain ⟨chains, built⟩ := others ms parts
  rw [Node.inside_foldl_addElse (n := .cond _ _ cs none) trivial chains, inside, insideOption,
    List.append_nil]
  exact (told cs rfl).append built

/-- What is in a clause. -/
theorem tells_clause {g : Peg Rule (Built (List Node) → Span → Built Node)}
    (quiet : g.quiet hasStatements)
    (hg : Reads unaided n g fun f => ∀ body s m, f body s = .ok m →
      ∃ i test cs, body = .ok cs ∧ m = .cond i test cs none)
    (block : Tells n (on .block) (Rule.Told .block)) :
    Tells n (stamped (g <*> on .block)) (Rule.Told .elseClause) := by
  refine tells_stamped ((tells_quiet quiet hg).app block ?_)
  rintro f body _ found ⟨rfl, made⟩ told s m e
  obtain ⟨i, test, cs, rfl, rfl⟩ := made body s m e
  refine ⟨trivial, ?_⟩
  rw [inside, insideOption, List.append_nil]
  exact told cs rfl

/-- An `@else` clause tells of the statements in its block. -/
theorem tells_elseClause (block : Tells n (on .block) (Rule.Told .block)) :
    Tells n elseClause (Rule.Told .elseClause) := by
  refine tells_clause rfl (reads_given fun test body s m e => ?_) block
  cases body with
  | error d => cases e
  | ok cs =>
    cases e
    exact ⟨infoAt s, test, cs, rfl, rfl⟩

/-- **The statements in what a rule reads** build what is in it, if those of the rules that it
calls do. -/
theorem tells_body (calls : ∀ {α : Type} (r : Rule α), Tells n (on r) r.Told) {α : Type}
    (r : Rule α) (unnoted : noted α r = none) : Tells n (body r) r.Told := by
  have inside := tells_statements (calls .statement)
  cases r with
  | statement => cases unnoted
  | sheet => exact .map (tells_right rfl inside)
  | block => exact .map (tells_left (tells_right rfl inside) rfl)
  | bufferBody | flushBody | directiveBody => exact tells_optionalBlock (calls .block)
  | comment => exact .alt (calls .loudComment) (calls .silentComment)
  | loudComment | silentComment | importStatement | extend | returnStatement | debug | warn =>
    exact tells_leaf rfl (reads_stamped (reads_given fun _ _ => rfl))
  | inclusion | declaration =>
    exact tells_leaf rfl (reads_stamped (.app_any (reads_given fun _ _ _ => rfl)))
  | assignment =>
    exact tells_leaf rfl (reads_stamped (.app_any (.app_any (reads_given fun _ _ _ _ => rfl))))
  | buffer =>
    exact tells_branch (·.getD (.ok [])) rfl (reads_given fun _ _ => ⟨_, rfl⟩)
      (tells_right rfl (calls .bufferBody))
  | flush => exact tells_flush (calls .flushBody)
  | badBuffer =>
    have refused : Reads unaided n badBuffer fun b => ∀ m, b ≠ .ok m :=
      reads_stamped (reads_given fun _ _ _ => nofun)
    exact (tells_quiet rfl refused).mono fun b _ none m e => absurd e (none.2 m)
  | ifStatement => exact tells_ifStatement (calls .block) (calls .elseClause)
  | elseClause => exact tells_elseClause (calls .block)
  | forStatement =>
    exact tells_branch id rfl
      (.app_any (.app_any (.app_any (reads_given fun _ _ _ _ _ => ⟨_, rfl⟩)))) (calls .block)
  | eachStatement | mixinDefinition | functionDefinition =>
    exact tells_branch id rfl (.app_any (reads_given fun _ _ _ => ⟨_, rfl⟩)) (calls .block)
  | whileStatement | media | supports | rule =>
    exact tells_branch id rfl (reads_given fun _ _ => ⟨_, rfl⟩) (calls .block)
  | directive =>
    exact tells_branch (·.getD (.ok [])) rfl (.app_any (reads_given fun _ _ _ => ⟨_, rfl⟩))
      (calls .directiveBody)
  | _ => exact fun _ _ _ _ _ _ => trivial

/-- What is in a statement; the statement itself is noted when it has been read. -/
theorem tells_statement (calls : ∀ {α : Type} (r : Rule α), Tells n (on r) r.Told) :
    Tells n statement fun b found => ∀ o, b = .ok o → Builds (insideOption o) found := by
  have empty : Tells n ((fun _ => .ok none) <$> on .empty : Peg Rule (Built (Option Node)))
      fun b found => ∀ o, b = .ok o → Builds (insideOption o) found := by
    refine .map ((tells_quiet rfl .any).mono ?_)
    rintro _ _ ⟨rfl, -⟩ o ⟨⟩
    rfl
  refine tells_left (.alt empty ?_) rfl
  exact .alt (tells_always (calls .comment)) <| .alt (tells_built (calls .buffer)) <|
    .alt (tells_built (calls .flush)) <| .alt (tells_built (calls .badBuffer)) <|
    .alt (tells_always (calls .assignment)) <| .alt (tells_built (calls .ifStatement)) <|
    .alt (tells_built (calls .forStatement)) <| .alt (tells_built (calls .eachStatement)) <|
    .alt (tells_built (calls .whileStatement)) <| .alt (tells_built (calls .media)) <|
    .alt (tells_built (calls .supports)) <| .alt (tells_always (calls .importStatement)) <|
    .alt (tells_always (calls .extend)) <| .alt (tells_always (calls .inclusion)) <|
    .alt (tells_built (calls .mixinDefinition)) <|
    .alt (tells_built (calls .functionDefinition)) <|
    .alt (tells_always (calls .returnStatement)) <| .alt (tells_always (calls .debug)) <|
    .alt (tells_always (calls .warn)) <| .alt (tells_built (calls .directive)) <|
    .alt (tells_always (calls .declaration)) (tells_built (calls .rule))

/-- **Whatever is read, its statements build what is in it.** -/
theorem tells_rule (n : Nat) {α : Type} (r : Rule α) : Tells n (on r) r.Told := by
  -- on the fuel: the rules that are called for a rule are matched with less of it
  induction n using Nat.strongRecOn generalizing α r with
  | ind n ih =>
    by_cases unnoted : noted α r = none
    · exact .call_unnoted unaided_plain unnoted fun m hm =>
        tells_body (fun r => ih m hm r) r unnoted
    · cases r with
      | statement =>
        refine .call unaided_plain rfl fun m hm => ?_
        refine (tells_statement fun r => ih m hm r).mono fun b found told c d o e => ?_
        refine builds_cons.2 ⟨o, insideOption o, e, told o e, ?_⟩
        cases o with
        | none => rfl
        | some n => exact congrArg (n :: ·) (List.append_nil _)
      | _ => exact absurd rfl unnoted

end Grammar

open Grammar

/-- The statements that are read of a text. -/
def Document.statements (file text : String) : List Statement :=
  Peg.trace unaided noted (fuelFor text.toList) (.call Rule.sheet) (.start file text.toList)

/-- A statement of a text is what a match reads at its place. -/
theorem Document.gives_of_mem_statements {file text : String} {x : Statement}
    (h : x ∈ Document.statements file text) :
    Gives (on .statement) x.start (.ok x.value x.stop) := by
  obtain ⟨β, r, f, b, m, noted, value, read⟩ := Peg.of_mem_trace h
  cases r with
  | statement =>
    cases noted
    rw [value]
    exact .of_run read
  | _ => cases noted

/-- **The statements of a text that is accepted** build the nodes of its tree, in order. -/
theorem Document.builds_of_parse {file text : String} {tree : Node}
    (h : Document.parse file text = .ok tree) :
    Builds tree.inside (Document.statements file text) := by
  obtain ⟨cs, d, rfl, run⟩ := Document.run_of_parse h
  exact tells_rule _ .sheet _ (Nat.le_refl _) _ _ d run cs rfl

example : (Document.statements "a.scss" "a \x7b b: c; \x7d @flush d;").map
    (fun x => String.ofList (x.start.rest.take 2)) = ["a ", "b:", "@f"] := by
  decide +kernel

end Stylesheet
