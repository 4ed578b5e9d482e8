/-
# The lines that nodes are stamped with

A statement never starts with space: what is before it has been read by then.  So every child
of a node is stamped with the line of its first character (`Node.StartsIn`).  An `@else` clause
is read together with the space before it, so it is stamped with the line of the brace that the
clause before it ends with (`Node.ContinuesIn`), whether or not there is a line break in between
(`Document.lines_of_parse`).
-/

import Stylesheet.Proofs.Grammar.Leads
import Stylesheet.Proofs.Grammar.Made
import Stylesheet.Proofs.Grammar.Simple

namespace Stylesheet

namespace Node

/-- The clause after a node. -/
def otherwise : Node → Option Node
  | plain .. => none
  | cond _ _ _ o => o

/-- A node without the clauses after it. -/
def lone : Node → Node
  | cond i t cs _ => cond i t cs none
  | n => n

/-- The clauses after a node. -/
def clauses : Node → List Node
  | cond _ _ _ (some o) => o :: o.clauses
  | _ => []

/-- Taking the clauses off leaves a node's info. -/
theorem info_lone (n : Node) : n.lone.info = n.info := by
  cases n <;> rfl

/-- Taking the clauses off leaves a node's children. -/
theorem children_lone (n : Node) : n.lone.children = n.children := by
  cases n <;> rfl

/-- A further clause leaves a node's info. -/
theorem info_addElse (n clause : Node) : (n.addElse clause).info = n.info := by
  unfold addElse
  split <;> rfl

/-- A further clause leaves a node's children. -/
theorem children_addElse (n clause : Node) : (n.addElse clause).children = n.children := by
  unfold addElse
  split <;> rfl

/-- A further clause changes nothing of the node alone. -/
theorem lone_addElse (n clause : Node) : (n.addElse clause).lone = n.lone := by
  unfold addElse
  split <;> rfl

/-- What clauses there are after one has been added. -/
theorem lone_mem_addElse {n clause m : Node} (h : m ∈ (n.addElse clause).clauses) :
    m.lone ∈ n.clauses.map lone ∨ m = clause ∨ m ∈ clause.clauses := by
  match n with
  | .plain .. => exact .inl (List.mem_map_of_mem h)
  | .cond _ _ _ none => exact .inr (List.mem_cons.1 h)
  | .cond _ _ _ (some o) =>
    rcases List.mem_cons.1 h with rfl | h
    · rw [lone_addElse]
      exact .inl (List.mem_cons_self ..)
    · exact (lone_mem_addElse h).imp_left (List.mem_cons_of_mem _)

/-- The clauses of an `@if` are those that have been added to it. -/
theorem foldl_addElse {clauses : List Node} (alone : ∀ c ∈ clauses, c.clauses = [] ∧ c.lone = c)
    (n : Node) :
    let whole := clauses.foldl (fun n clause => n.addElse clause) n
    whole.info = n.info ∧ whole.children = n.children ∧
      ∀ m ∈ whole.clauses, m.lone ∈ n.clauses.map lone ++ clauses := by
  induction clauses generalizing n with
  | nil => exact ⟨rfl, rfl, fun m hm => by simpa using ⟨m, hm, rfl⟩⟩
  | cons c clauses ih =>
    obtain ⟨⟨noClauses, self⟩, others⟩ := List.forall_mem_cons.1 alone
    obtain ⟨info, children, among⟩ := ih others (n.addElse c)
    refine ⟨info.trans (info_addElse n c), children.trans (children_addElse n c), fun m hm => ?_⟩
    rcases List.mem_append.1 (among m hm) with added | later
    · obtain ⟨k, hk, e⟩ := List.mem_map.1 added
      rcases lone_mem_addElse hk with before | rfl | after
      · exact List.mem_append_left _ (e ▸ before)
      · rw [← e, self]
        exact List.mem_append_right _ List.mem_cons_self
      · rw [noClauses] at after
        cases after
    · exact List.mem_append_right _ (List.mem_cons_of_mem _ later)

end Node

namespace Grammar

open Simple (IsGap)

variable {α β : Type} {c d e : Cursor} {n : Node}

/-! ### What is built -/

/-- A node with a body, if the body has been built. -/
theorem branch_eq_ok {head : Head} {body : Built (List Node)} {s : Span} :
    branch head body s = .ok n ↔ ∃ cs, body = .ok cs ∧ n = .plain (infoAt s) head cs := by
  cases body with
  | error d => exact ⟨nofun, nofun⟩
  | ok cs =>
    constructor
    · intro h
      cases h
      exact ⟨cs, rfl, rfl⟩
    · rintro ⟨_, ⟨⟩, rfl⟩
      rfl

/-- A flush without a body. -/
theorem flushOf_eq_ok {name : Template} {body : Option (Built (List Node))} {s : Span} :
    flushOf name body s = .ok n ↔ body = none ∧ n = leaf (.flush { written := name } []) s := by
  cases body with
  | none =>
    constructor
    · intro h
      cases h
      exact ⟨rfl, rfl⟩
    · rintro ⟨-, rfl⟩
      rfl
  | some b => cases b <;> exact ⟨nofun, nofun⟩

/-- Parts that are all built, one after the other. -/
theorem parts_cons {b : Built α} {found : List (Built α)} {as : List α} :
    (b :: found).mapM id = .ok as ↔
      ∃ a others, b = .ok a ∧ found.mapM id = .ok others ∧ as = a :: others := by
  rw [List.mapM_cons]
  cases b with
  | error d => exact ⟨nofun, nofun⟩
  | ok a =>
    cases found.mapM id with
    | error d => exact ⟨nofun, nofun⟩
    | ok others =>
      constructor
      · intro h
        cases h
        exact ⟨a, others, rfl, rfl, rfl⟩
      · rintro ⟨_, _, ⟨⟩, ⟨⟩, rfl⟩
        rfl

/-- An `@if`, if its content and its clauses have been built. -/
theorem ifOf_eq_ok {test : Expr} {body : Built (List Node)} {clauses : List (Built Node)}
    {s : Span} : ifOf test body clauses s = .ok n ↔
      ∃ cs others, body = .ok cs ∧ clauses.mapM id = .ok others ∧
        n = others.foldl (fun n clause => n.addElse clause)
          (.cond (infoAt s) (some test) cs none) := by
  unfold ifOf
  cases body with
  | error d => exact ⟨nofun, nofun⟩
  | ok cs =>
    cases clauses.mapM id with
    | error d => exact ⟨nofun, nofun⟩
    | ok others =>
      constructor
      · intro h
        cases h
        exact ⟨cs, others, rfl, rfl, rfl⟩
      · rintro ⟨_, _, ⟨⟩, ⟨⟩, rfl⟩
        rfl

/-- A statement that builds a node. -/
theorem map_some_eq_ok {b : Built Node} {o : Option Node} :
    b.map some = .ok o ↔ ∃ n, b = .ok n ∧ o = some n := by
  cases b with
  | error d => exact ⟨nofun, nofun⟩
  | ok n =>
    constructor
    · intro h
      cases h
      exact ⟨n, rfl, rfl⟩
    · rintro ⟨_, ⟨⟩, rfl⟩
      rfl

/-- Statements are built if every one is, and comments that leave no node are dropped. -/
theorem statements_eq_ok {found : List (Built (Option Node))} {ns : List Node} :
    statements found = .ok ns ↔ ∃ os, found.mapM id = .ok os ∧ ns = os.filterMap id := by
  unfold statements
  cases found.mapM id with
  | error d => exact ⟨nofun, nofun⟩
  | ok os =>
    constructor
    · intro h
      cases h
      exact ⟨os, rfl, rfl⟩
    · rintro ⟨_, ⟨⟩, rfl⟩
      rfl

/-- Whether a place comes right after a closing brace. -/
def Braced (c d : Cursor) : Prop :=
  ∃ e, c.Later e ∧ ['\x7d'] <+: e.rest ∧ d = e.skip 1

/-- The end of a clause's block is not before its start. -/
theorem Braced.later (h : Braced c d) : c.Later d := by
  obtain ⟨e, after, -, rfl⟩ := h
  exact after.trans ⟨1, rfl⟩

/-- A block that ends here ends after every earlier place as well. -/
theorem Braced.after (h : c.Later d) (h' : Braced d e) : Braced c e := by
  obtain ⟨f, after, brace, rfl⟩ := h'
  exact ⟨f, h.trans after, brace, rfl⟩

/-- Whether some content is none, or read by a block. -/
def Inside (c : Cursor) (body : Built (List Node)) : Prop :=
  body = .ok [] ∨ ∃ e d, c.Later e ∧ Gives (on .block) e (.ok body d)

/-- A block inside a later part of the text is inside this one. -/
theorem Inside.after {body : Built (List Node)} (h : c.Later d) (h' : Inside d body) :
    Inside c body :=
  h'.imp_right fun ⟨e, f, after, gives⟩ => ⟨e, f, h.trans after, gives⟩

/-- Whether a node is stamped with a place, with blocks and clauses after it. -/
structure Shape (c : Cursor) (n : Node) : Prop where
  info : n.info = infoAt c.span
  content : Inside c (.ok n.children)
  clauses : ∀ m ∈ n.clauses, ∃ e d, Braced c e ∧ Gives (on .elseClause) e (.ok (.ok m.lone) d)

/-- A node without a block has the shape of its statement. -/
theorem shape_leaf (head : Head) (c : Cursor) : Shape c (leaf head c.span) where
  info := rfl
  content := .inl rfl
  clauses := nofun

/-- A node with a block has the shape of its statement, if the block is inside it. -/
theorem shape_branch {head : Head} {body : Built (List Node)} (content : Inside c body)
    (h : branch head body c.span = .ok n) : Shape c n := by
  obtain ⟨cs, rfl, rfl⟩ := branch_eq_ok.1 h
  exact ⟨rfl, content, nofun⟩

/-! ### Statements with one form -/

/-- What is built at a place. -/
theorem leads_stamped {p : Peg Rule (Span → α)} {fits : Cursor → α → Cursor → Prop}
    (h : Leads p fun c build d => fits c (build c.span) d) : Leads (stamped p) fits :=
  .map (.located h)

/-- A rule that makes nodes without blocks makes them of the shape. -/
theorem leads_leaf {p : Peg Rule (Span → Node)}
    (h : Leads p fun _ build _ => ∃ head, build = leaf head) :
    Leads (stamped p) fun c n _ => Shape c n := by
  refine leads_stamped (h.mono ?_)
  rintro c _ - ⟨head, rfl⟩
  exact shape_leaf head c

/-- As `leads_leaf`, for a rule whose node may be refused. -/
theorem leads_built_leaf {p : Peg Rule (Span → Built Node)}
    (h : Leads p fun _ build _ => ∀ s n, build s = .ok n → ∃ head, n = leaf head s) :
    Leads (stamped p) fun c b _ => ∀ n, b = .ok n → Shape c n := by
  refine leads_stamped (h.mono fun c build _ made n e => ?_)
  obtain ⟨head, rfl⟩ := made _ n e
  exact shape_leaf head c

/-- A rule that reads a block last makes nodes of the shape. -/
theorem leads_branch {g : Peg Rule (β → Span → Built Node)} {q : Peg Rule β}
    (body : β → Built (List Node))
    (hg : Leads g fun _ f _ => ∀ b, ∃ head, f b = branch head (body b))
    (hq : Leads q fun c b _ => Inside c (body b)) :
    Leads (stamped (g <*> q)) fun c b _ => ∀ n, b = .ok n → Shape c n := by
  refine leads_stamped (((hg.and .later).app hq).mono ?_)
  rintro c _ - ⟨f, b, e, rfl, ⟨made, after⟩, inside⟩ n built
  obtain ⟨head, made⟩ := made b
  rw [made] at built
  exact shape_branch (inside.after after) built

/-- A block that is read is inside the text from there on. -/
theorem leads_inside : Leads (on .block) fun c b _ => Inside c b :=
  fun c _ d gives => .inr ⟨c, d, .refl c, gives⟩

/-- A block that may be left out is inside the text from there on, if there is one. -/
theorem leads_optionalBlock : Leads optionalBlock fun c o _ => Inside c (o.getD (.ok [])) :=
  .alt (.map leads_inside) (.map fun _ _ _ _ => .inl rfl)

/-- A rule for a block that may be absent, perhaps after space. -/
theorem leads_gap_inside {q : Peg Rule β} {body : β → Built (List Node)}
    (h : Leads q fun c b _ => Inside c (body b)) :
    Leads (on .gap *> q) fun c b _ => Inside c (body b) := by
  refine (Leads.later.right h).mono ?_
  rintro c b - ⟨e, -, after, inside⟩
  exact inside.after after

/-! ### Clauses -/

/-- A gap is all the space and the comments that follow. -/
theorem leads_gap : Leads (on .gap) fun c _ d =>
    ∃ gap, c.rest = gap ++ d.rest ∧ IsGap gap ∧ Stops Text.isSpace d.rest := by
  refine .call (.map (Leads.span.mono ?_))
  rintro c _ _ ⟨rfl, rfl⟩
  obtain ⟨gap, rest, e, isGap, stops⟩ := exists_run Text.isSpace c.rest
  have taken : c.rest.takeWhile Text.isSpace = gap := e ▸ takeWhile_of_stops isGap stops
  have rest_eq : (c.skip (c.rest.takeWhile Text.isSpace).length).rest = rest := by
    rw [taken, Cursor.rest_skip, e, List.drop_left]
  exact ⟨gap, by rw [rest_eq, e], isGap, by rwa [rest_eq]⟩

/-- A block ends with its brace. -/
theorem leads_block_braced : Leads (on .block) fun c _ d => Braced c d := by
  refine .call (.map ((Leads.later.left .lit).mono ?_))
  rintro c _ _ ⟨e, -, after, brace, rfl⟩
  exact ⟨e, after, brace, rfl⟩

/-- Whether there is an `@else` after the space at a place. -/
def AtElse (c : Cursor) : Prop :=
  ∃ gap rest, c.rest = gap ++ ("@else".toList ++ rest) ∧ IsGap gap

/-- The keyword of a clause stands after a gap. -/
theorem leads_atElse : Leads (on .gap *> keyword "@else") fun c _ _ => AtElse c := by
  refine (leads_gap.right (Leads.lit.left .later)).mono ?_
  rintro c _ - ⟨e, -, ⟨gap, split, isGap, -⟩, -, -, ⟨⟨rest, starts⟩, -⟩, -⟩
  exact ⟨gap, rest, by rw [split, starts], isGap⟩

/-- What a clause is built from. -/
theorem leads_clause {g : Peg Rule (Built (List Node) → Span → Built Node)}
    (hg : Leads g fun c f _ => AtElse c ∧ ∀ body s n, f body s = .ok n →
      ∃ test cs, body = .ok cs ∧ n = .cond (infoAt s) test cs none) :
    Leads (stamped (g <*> on .block)) fun c b d => Braced c d ∧ AtElse c ∧
      ∀ n, b = .ok n → Shape c n ∧ n.clauses = [] ∧ n.lone = n := by
  refine leads_stamped (((hg.and .later).app (leads_block_braced.and leads_inside)).mono ?_)
  rintro c _ d ⟨f, body, e, rfl, ⟨⟨atElse, made⟩, after⟩, braced, inside⟩
  refine ⟨braced.after after, atElse, fun n built => ?_⟩
  obtain ⟨test, cs, rfl, rfl⟩ := made _ _ n built
  exact ⟨⟨rfl, inside.after after, nofun⟩, rfl, rfl⟩

/-- **A clause is stamped with the place before the space before it.** -/
theorem leads_elseClause : Leads (on .elseClause) fun c b d => Braced c d ∧ AtElse c ∧
    ∀ n, b = .ok n → Shape c n ∧ n.clauses = [] ∧ n.lone = n := by
  have start : Leads (on .gap *> keyword "@else" *> on .gap *> .opt (on .elseTest)) fun c _ _ =>
      AtElse c := by
    refine ((leads_atElse.right .later).right .later).mono ?_
    rintro c _ - ⟨_, _, ⟨_, _, atElse, -⟩, -⟩
    exact atElse
  refine .call (leads_clause (.map (start.mono fun c test _ atElse => ⟨atElse, ?_⟩)))
  intro body s n built
  cases body with
  | error => cases built
  | ok cs =>
    cases built
    exact ⟨test, cs, rfl, rfl⟩

/-- Parts that are all built are what has been found. -/
theorem mem_of_parts {found : List (Built α)} {as : List α} (h : found.mapM id = .ok as) :
    ∀ a ∈ as, .ok a ∈ found := by
  induction found generalizing as with
  | nil =>
    cases h
    exact nofun
  | cons b found ih =>
    obtain ⟨a, others, rfl, parts, rfl⟩ := parts_cons.1 h
    exact List.forall_mem_cons.2 ⟨List.mem_cons_self, fun b hb =>
      List.mem_cons_of_mem _ (ih parts b hb)⟩

/-- What is built of an `@if` and its clauses. -/
theorem shape_if {test : Expr} {body : Built (List Node)} {clauses : List (Built Node)}
    (content : Inside c body)
    (each : ∀ b ∈ clauses, ∃ e d, Braced c e ∧ Gives (on .elseClause) e (.ok b d))
    (h : ifOf test body clauses c.span = .ok n) : Shape c n := by
  obtain ⟨cs, others, rfl, parts, rfl⟩ := ifOf_eq_ok.1 h
  have read (m : Node) (hm : m ∈ others) :
      ∃ e d, Braced c e ∧ Gives (on .elseClause) e (.ok (.ok m) d) :=
    each _ (mem_of_parts parts m hm)
  have alone (m : Node) (hm : m ∈ others) : m.clauses = [] ∧ m.lone = m := by
    obtain ⟨e, d, -, gives⟩ := read m hm
    exact ((leads_elseClause e _ d gives).2.2 m rfl).2
  obtain ⟨info, children, among⟩ :=
    Node.foldl_addElse alone (.cond (infoAt c.span) (some test) cs none)
  refine ⟨info, children ▸ content, fun m hm => ?_⟩
  exact read m.lone (by simpa [Node.clauses] using among m hm)

/-- An `@if` with its clauses has the shape: every clause begins at the brace before it. -/
theorem leads_ifStatement : Leads (on .ifStatement) fun c b _ => ∀ n, b = .ok n → Shape c n := by
  have clauses : Leads (.star (on .elseClause)) fun c bs _ => ∀ c₀, Braced c₀ c →
      ∀ b ∈ bs, ∃ e d, Braced c₀ e ∧ Gives (on .elseClause) e (.ok b d) := by
    intro c bs d gives c₀ braced b hb
    have keeps : Leads (on .elseClause) fun c _ d => Braced c₀ c → Braced c₀ d :=
      leads_elseClause.mono fun _ _ _ h braced => h.1.after braced.later
    obtain ⟨e, d, -, braced, gives⟩ := Leads.star keeps c bs d gives braced b hb
    exact ⟨e, d, braced, gives⟩
  have start : Leads (ifOf <$> (keyword "@if" *> on .gap *> on .commaList <* on .gap))
      fun c f e => c.Later e ∧ ∃ test, f = ifOf test :=
    .and .later (.given fun test => ⟨test, rfl⟩)
  refine .call (leads_stamped (((start.app (leads_block_braced.and leads_inside)).app
    clauses).mono ?_))
  rintro c _ d ⟨_, bs, e, rfl, ⟨_, body, e', rfl, ⟨after, test, rfl⟩, braced, inside⟩, each⟩ n built
  exact shape_if (inside.after after) (each c (braced.after after)) built

/-! ### Statements -/

end Grammar

/-- Whether what a rule for statements of one form reads is stamped with a place. -/
def Rule.Stamps : {α : Type} → Rule α → Cursor → α → Prop
  | _, .comment, c, n | _, .loudComment, c, n | _, .silentComment, c, n | _, .assignment, c, n
  | _, .importStatement, c, n | _, .extend, c, n | _, .inclusion, c, n
  | _, .returnStatement, c, n | _, .debug, c, n | _, .warn, c, n | _, .declaration, c, n =>
    Grammar.Shape c n
  | _, .buffer, c, b | _, .flush, c, b | _, .badBuffer, c, b | _, .ifStatement, c, b
  | _, .forStatement, c, b | _, .eachStatement, c, b | _, .whileStatement, c, b
  | _, .media, c, b | _, .supports, c, b | _, .mixinDefinition, c, b
  | _, .functionDefinition, c, b | _, .directive, c, b | _, .rule, c, b =>
    ∀ n, b = .ok n → Grammar.Shape c n
  | _, _, _, _ => True

namespace Grammar

/-- **A rule for statements of one form stamps a node with the place where it starts.** -/
theorem leads_stamps {α : Type} (r : Rule α) : Leads (on r) fun c a _ => r.Stamps c a := by
  have leaf {β : Type} {p : Peg Rule β} {head : β → Head} :
      Leads ((fun b => Grammar.leaf (head b)) <$> p) fun _ build _ =>
        ∃ head, build = Grammar.leaf head := .given fun b => ⟨head b, rfl⟩
  have loud : Leads (on .loudComment) fun c n _ => Shape c n := .call (leads_leaf leaf)
  have silent : Leads (on .silentComment) fun c n _ => Shape c n := .call (leads_leaf leaf)
  cases r with
  | ifStatement => exact leads_ifStatement
  | loudComment => exact loud
  | silentComment => exact silent
  | comment => exact .call (.alt loud silent)
  | importStatement | extend | returnStatement | debug | warn => exact .call (leads_leaf leaf)
  | inclusion | declaration =>
    exact .call (leads_leaf (.app_any (.given fun _ _ => ⟨_, rfl⟩)))
  | assignment =>
    exact .call (leads_leaf (.app_any (.app_any (.given fun _ _ _ => ⟨_, rfl⟩))))
  | flush =>
    exact .call (leads_built_leaf (.app_any (.given fun _ _ _ _ built =>
      ⟨_, (flushOf_eq_ok.1 built).2⟩)))
  | badBuffer => exact .call (leads_built_leaf (.given fun _ _ _ built => nomatch built))
  | buffer =>
    exact .call (leads_branch (·.getD (.ok [])) (.given fun _ _ => ⟨_, rfl⟩)
      (leads_gap_inside (.call leads_optionalBlock)))
  | directive =>
    exact .call (leads_branch (·.getD (.ok [])) (.app_any (.given fun _ _ _ => ⟨_, rfl⟩))
      (.call leads_optionalBlock))
  | whileStatement | media | supports | rule =>
    exact .call (leads_branch id (.given fun _ _ => ⟨_, rfl⟩) leads_inside)
  | eachStatement | mixinDefinition | functionDefinition =>
    exact .call (leads_branch id (.app_any (.given fun _ _ _ => ⟨_, rfl⟩)) leads_inside)
  | forStatement =>
    exact .call (leads_branch id
      (.app_any (.app_any (.app_any (.given fun _ _ _ _ _ => ⟨_, rfl⟩)))) leads_inside)
  | _ => exact fun _ _ _ _ => trivial

/-- A fact about a node is one about the statement that is that node. -/
theorem leads_always {p : Peg Rule Node} {fits : Cursor → Node → Prop}
    (h : Leads p fun c n _ => fits c n) :
    Leads (always p) fun c b _ => ∀ n, b = .ok (some n) → fits c n :=
  .map (h.mono fun _ _ _ fit _ e => by cases e; exact fit)

/-- As `leads_always`, for a node that may be refused. -/
theorem leads_built {p : Peg Rule (Built Node)} {fits : Cursor → Node → Prop}
    (h : Leads p fun c b _ => ∀ n, b = .ok n → fits c n) :
    Leads (built p) fun c b _ => ∀ n, b = .ok (some n) → fits c n := by
  refine .map (h.mono fun c b _ fit n e => ?_)
  obtain ⟨m, rfl, same⟩ := map_some_eq_ok.1 e
  cases same
  exact fit n rfl

/-- **A statement is stamped with the place where it starts**, and no space comes after it. -/
theorem leads_statement : Leads (on .statement) fun c b d => Stops Text.isSpace d.rest ∧
    ∀ n, b = .ok (some n) → Shape c n := by
  have empty : Leads ((fun _ => .ok none) <$> on .empty : Peg Rule (Built (Option Node)))
      fun c b _ => ∀ n, b = .ok (some n) → Shape c n := .map fun _ _ _ _ _ e => nomatch e
  have forms := Leads.alt empty <|
      .alt (leads_always (leads_stamps .comment)) <| .alt (leads_built (leads_stamps .buffer)) <|
      .alt (leads_built (leads_stamps .flush)) <| .alt (leads_built (leads_stamps .badBuffer)) <|
      .alt (leads_always (leads_stamps .assignment)) <|
      .alt (leads_built (leads_stamps .ifStatement)) <|
      .alt (leads_built (leads_stamps .forStatement)) <|
      .alt (leads_built (leads_stamps .eachStatement)) <|
      .alt (leads_built (leads_stamps .whileStatement)) <|
      .alt (leads_built (leads_stamps .media)) <| .alt (leads_built (leads_stamps .supports)) <|
      .alt (leads_always (leads_stamps .importStatement)) <|
      .alt (leads_always (leads_stamps .extend)) <|
      .alt (leads_always (leads_stamps .inclusion)) <|
      .alt (leads_built (leads_stamps .mixinDefinition)) <|
      .alt (leads_built (leads_stamps .functionDefinition)) <|
      .alt (leads_always (leads_stamps .returnStatement)) <|
      .alt (leads_always (leads_stamps .debug)) <| .alt (leads_always (leads_stamps .warn)) <|
      .alt (leads_built (leads_stamps .directive)) <|
      .alt (leads_always (leads_stamps .declaration)) (leads_built (leads_stamps .rule))
  refine .call ((forms.left leads_gap).mono ?_)
  rintro c b d ⟨e, -, shape, -, -, -, stops⟩
  exact ⟨stops, shape⟩

/-! ### Statements one after the other -/

/-- Whether a node is what a statement reads at a place after another one, where no space is. -/
def Starts (c : Cursor) (m : Node) : Prop :=
  ∃ e d, c.Later e ∧ Stops Text.isSpace e.rest ∧ Gives (on .statement) e (.ok (.ok (some m)) d)

/-- A node that starts in a later part of the text starts in this one. -/
theorem Starts.after {m : Node} (h : c.Later d) (h' : Starts d m) : Starts c m := by
  obtain ⟨e, f, after, stops, gives⟩ := h'
  exact ⟨e, f, h.trans after, stops, gives⟩

/-- The nodes that are built are among what has been found. -/
theorem mem_of_statements {found : List (Built (Option Node))} {ns : List Node}
    (h : statements found = .ok ns) : ∀ m ∈ ns, .ok (some m) ∈ found := by
  obtain ⟨os, parts, rfl⟩ := statements_eq_ok.1 h
  intro m hm
  obtain ⟨o, ho, rfl⟩ := List.mem_filterMap.1 hm
  exact mem_of_parts parts _ ho

/-- No space comes before a statement, because it has been read after the one before. -/
theorem leads_statements : Leads (.star (on .statement)) fun c found _ =>
    Stops Text.isSpace c.rest → ∀ ns, statements found = .ok ns → ∀ m ∈ ns, Starts c m := by
  intro c found d gives stops ns built m hm
  have keeps : Leads (on .statement) fun c _ d =>
      Stops Text.isSpace c.rest → Stops Text.isSpace d.rest :=
    leads_statement.mono fun _ _ _ h _ => h.1
  obtain ⟨e, d, after, stops, gives⟩ :=
    Leads.star keeps c found d gives stops _ (mem_of_statements built m hm)
  exact ⟨e, d, after, stops, gives⟩

/-- Statements after some space. -/
theorem leads_gap_statements {p : Peg Rule α} (h : Leads p fun c _ d =>
    c.Later d ∧ Stops Text.isSpace d.rest) :
    Leads (p *> .star (on .statement)) fun c found _ =>
      ∀ ns, statements found = .ok ns → ∀ m ∈ ns, Starts c m := by
  refine (h.right leads_statements).mono ?_
  rintro c found - ⟨e, -, ⟨after, stops⟩, starts⟩ ns built m hm
  exact (starts stops ns built m hm).after after

/-- Every child in a block starts with a statement of the block. -/
theorem leads_block : Leads (on .block) fun c b _ => ∀ ns, b = .ok ns → ∀ m ∈ ns, Starts c m := by
  have opened : Leads (.lit "\x7b" *> on .gap) fun c _ d =>
      c.Later d ∧ Stops Text.isSpace d.rest := by
    refine .and .later ((Leads.later.right leads_gap).mono ?_)
    rintro c _ d ⟨_, _, -, -, -, -, stops⟩
    exact stops
  refine .call (.map (((leads_gap_statements opened).left .later).mono ?_))
  rintro c found - ⟨_, _, starts, -⟩
  exact starts

/-- Every node of a sheet starts with a statement of it. -/
theorem leads_sheet : Leads (on .sheet) fun c b _ => ∀ ns, b = .ok ns → ∀ m ∈ ns, Starts c m := by
  have opened : Leads (on .gap) fun c _ d => c.Later d ∧ Stops Text.isSpace d.rest :=
    .and .later (leads_gap.mono fun _ _ _ ⟨_, _, _, stops⟩ => stops)
  exact .call (.map (leads_gap_statements opened))

end Grammar

open Grammar

variable {file : String} {text : List Char}

namespace Node

/-- Whether a node is what a statement of a text reads, and is stamped with the line of the first
character of the statement, which is no space. -/
def StartsIn (file : String) (text : List Char) (n : Node) : Prop :=
  ∃ before x rest d, text = before ++ x :: rest ∧ Text.isSpace x = false ∧
    Gives (on .statement) (.after file before (x :: rest)) (.ok (.ok (some n)) d) ∧
    n.info.line = before.count '\n' + 1

/-- Whether a node is what an `@else` clause of a text reads, but for the clauses after it, and
is stamped with the line of the brace that comes before the clause and the space before it. -/
def ContinuesIn (file : String) (text : List Char) (n : Node) : Prop :=
  ∃ before gap rest d, text = before ++ '\x7d' :: (gap ++ ("@else".toList ++ rest)) ∧
    Simple.IsGap gap ∧
    Gives (on .elseClause) (.after file (before ++ ['\x7d']) (gap ++ ("@else".toList ++ rest)))
      (.ok (.ok n.lone) d) ∧
    n.info.line = before.count '\n' + 1

/-- Whether what is in a node is read by statements and clauses of a text. -/
structure Sourced (start : Cursor) (n : Node) : Prop where
  children : ∀ m ∈ n.children, Starts start m
  clauses : ∀ m ∈ n.clauses, ∃ e d, Braced start e ∧ Gives (on .elseClause) e (.ok (.ok m.lone) d)

/-- A node of the shape is stamped as the text says. -/
theorem sourced_of_shape {start c : Cursor} {n : Node} (after : start.Later c) (h : Shape c n) :
    n.Sourced start where
  children m hm := by
    rcases h.content with none | ⟨e, d, later, gives⟩
    · rw [Except.ok.inj none] at hm
      cases hm
    · exact (leads_block _ _ _ gives _ rfl m hm).after (after.trans later)
  clauses m hm := by
    obtain ⟨e, d, braced, gives⟩ := h.clauses m hm
    exact ⟨e, d, braced.after after, gives⟩

/-- A node that starts with a statement is stamped as the text says. -/
theorem sourced_of_starts {start : Cursor} {n : Node} (h : Starts start n) : n.Sourced start := by
  obtain ⟨e, d, after, -, gives⟩ := h
  exact sourced_of_shape after ((leads_statement _ _ _ gives).2 n rfl)

/-- What is in a clause is what is in it without the clauses after it. -/
theorem sourced_otherwise {start : Cursor} {i : Info} {t : Option Expr} {cs : List Node} {o : Node}
    (h : (cond i t cs (some o)).Sourced start) : o.Sourced start where
  children m hm := by
    obtain ⟨e, d, braced, gives⟩ := h.clauses o List.mem_cons_self
    obtain ⟨shape, -, -⟩ := (leads_elseClause _ _ _ gives).2.2 _ rfl
    exact (sourced_of_shape braced.later shape).children m (by rwa [children_lone])
  clauses m hm := h.clauses m (List.mem_cons_of_mem _ hm)

/-- The line of a node is one more than the line breaks before it. -/
theorem line_of_shape {before rest : List Char} {n : Node}
    (h : Shape (.after file before rest) n) : n.info.line = before.count '\n' + 1 := by
  rw [h.info]
  rfl

/-- A node that starts with a statement of the text starts in the text. -/
theorem startsIn_of_starts {n : Node} (h : Starts (.start file text) n) : n.StartsIn file text := by
  obtain ⟨e, d, after, stops, gives⟩ := h
  obtain ⟨before, rest, rfl, rfl⟩ := after.exists_after
  have shape := (leads_statement _ _ _ gives).2 n rfl
  obtain ⟨x, rest, rfl⟩ := List.exists_cons_of_ne_nil (gives.rest_ne_nil rfl)
  exact ⟨before, x, rest, d, rfl, stops_cons.1 stops, gives, line_of_shape shape⟩

/-- A clause read after a brace continues in the text. -/
theorem continuesIn_of_gives {n : Node} {e d : Cursor} (braced : Braced (.start file text) e)
    (gives : Gives (on .elseClause) e (.ok (.ok n.lone) d)) : n.ContinuesIn file text := by
  obtain ⟨c, after, ⟨tail, brace⟩, rfl⟩ := braced
  obtain ⟨before, rest, rfl, rfl⟩ := after.exists_after
  obtain rfl : '\x7d' :: tail = rest := brace
  have place : (Cursor.after file before ('\x7d' :: tail)).skip 1 =
      .after file (before ++ ['\x7d']) tail := Cursor.skip_after file before ['\x7d'] tail
  rw [place] at gives
  obtain ⟨-, ⟨gap, rest, split, isGap⟩, shape⟩ := leads_elseClause _ _ _ gives
  obtain rfl : tail = _ := split
  refine ⟨before, gap, rest, d, rfl, isGap, gives, ?_⟩
  rw [← info_lone, line_of_shape (shape _ rfl).1, List.count_append]
  rfl

/-- Whether the children of a node and the clause after it are stamped as they are read. -/
def Lines (file : String) (text : List Char) (n : Node) : Prop :=
  (∀ m ∈ n.children, m.StartsIn file text) ∧ ∀ m ∈ n.otherwise, m.ContinuesIn file text

/-- The lines of a node and of all that is in it. -/
theorem lines_of_sourced {n : Node} (h : n.Sourced (.start file text)) : n.Lines file text where
  left m hm := startsIn_of_starts (h.children m hm)
  right m hm := by
    match n with
    | .cond i t cs (some o) =>
      cases Option.mem_some_iff.1 hm
      obtain ⟨e, d, braced, gives⟩ := h.clauses m List.mem_cons_self
      exact continuesIn_of_gives braced gives

mutual

/-- **So it is throughout a tree.** -/
theorem lines_nodes (n : Node) (h : n.Sourced (.start file text)) :
    ∀ m ∈ n.nodes, m.Lines file text := by
  match n with
  | .plain i head cs =>
    exact List.forall_mem_cons.2 ⟨lines_of_sourced h,
      lines_nodesAll cs fun m hm => sourced_of_starts (h.children m hm)⟩
  | .cond i t cs o =>
    have inside := lines_nodesAll cs fun m hm => sourced_of_starts (h.children m hm)
    have after := lines_nodesOption o fun m hm => by
      cases Option.mem_def.1 hm
      exact sourced_otherwise h
    exact List.forall_mem_cons.2 ⟨lines_of_sourced h, List.forall_mem_append.2 ⟨inside, after⟩⟩

/-- The lines of all the nodes in a list. -/
theorem lines_nodesAll (ns : List Node) (h : ∀ n ∈ ns, n.Sourced (.start file text)) :
    ∀ m ∈ nodesAll ns, m.Lines file text := by
  match ns with
  | [] => exact nofun
  | n :: ns =>
    obtain ⟨first, others⟩ := List.forall_mem_cons.1 h
    exact List.forall_mem_append.2 ⟨lines_nodes n first, lines_nodesAll ns others⟩

/-- The lines of all the nodes in the clause after one. -/
theorem lines_nodesOption (o : Option Node) (h : ∀ n ∈ o, n.Sourced (.start file text)) :
    ∀ m ∈ nodesOption o, m.Lines file text := by
  match o with
  | none => exact nofun
  | some n => exact lines_nodes n (h n rfl)

end

end Node

/-- The content of a document is what a match of a sheet comes to. -/
theorem Document.run_of_parse {tree : Node} {text : String}
    (h : Document.parse file text = .ok tree) : ∃ cs d, tree = .plain {} .root cs ∧
      Peg.run unaided (fuelFor text.toList) (.call Rule.sheet) (.start file text.toList) =
        .ok (.ok cs) d := by
  simp only [Document.parse, run_sheet_eq] at h
  cases run : Peg.run unaided _ (.call Rule.sheet) (.start file text.toList) with
  | ok nodes next =>
    rw [run] at h
    dsimp only at h
    split at h
    · cases nodes with
      | error d => cases h
      | ok cs =>
        cases h
        exact ⟨cs, next, rfl, rfl⟩
    · cases h
  | fail =>
    rw [run] at h
    cases h
  | exhausted =>
    rw [run] at h
    cases h

/-- The content of a document is what a sheet reads. -/
theorem Document.gives_of_parse {tree : Node} {text : String}
    (h : Document.parse file text = .ok tree) : ∃ cs d, tree = .plain {} .root cs ∧
      Gives (on .sheet) (.start file text.toList) (.ok (.ok cs) d) := by
  obtain ⟨cs, d, rfl, run⟩ := Document.run_of_parse h
  exact ⟨cs, d, rfl, .of_run run⟩

/-- **The lines of the nodes of a document.** Whatever text is read as a tree, each child of each
node, at any depth and in whichever clause, is what a statement of the text reads, and its line is
that of the first character of the statement, which is no space; each `@else` clause is what a
clause of the text reads, and its line is that of the brace before it.  So the line of a clause is
the line of its keyword just if no line break is in the space between the two. -/
theorem Document.lines_of_parse {file text : String} {tree : Node}
    (h : Document.parse file text = .ok tree) :
    ∀ n ∈ tree.nodes, (∀ m ∈ n.children, m.StartsIn file text.toList) ∧
      ∀ m ∈ n.otherwise, m.ContinuesIn file text.toList := by
  obtain ⟨cs, d, rfl, gives⟩ := Document.gives_of_parse h
  exact Node.lines_nodes _ ⟨leads_sheet _ _ _ gives cs rfl, nofun⟩

/-- A clause on the line of the brace before it, with a rule of three lines in it. -/
theorem Document.lines_of_parse_branches :
    let text := "@if $a \x7b\x7d @else \x7b\nb \x7b\n c: d\n\x7d\n\x7d"
    ∃ tree, Document.parse "a.scss" text = .ok tree ∧ ∀ n ∈ tree.nodes,
      (∀ m ∈ n.children, m.StartsIn "a.scss" text.toList) ∧
        ∀ m ∈ n.otherwise, m.ContinuesIn "a.scss" text.toList := by
  intro text
  have accepted : (Document.parse "a.scss" text).toOption.isSome := by decide +kernel
  cases read : Document.parse "a.scss" text with
  | ok tree => exact ⟨tree, rfl, Document.lines_of_parse read⟩
  | error d =>
    rw [read] at accepted
    cases accepted

/-- The line of a clause whose keyword is on the second line. -/
theorem Document.line_of_else :
    (Document.parse "a.scss" "@if $a \x7b\x7d\n@else \x7b\x7d").toOption.map (fun tree =>
      tree.nodes.flatMap fun n => n.otherwise.toList.map fun m => m.info.line) = some [1] := by
  decide +kernel

end Stylesheet
