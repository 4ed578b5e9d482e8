/-
# Statements that are read are complete

Whatever a rule of the grammar reads, every expression that a statement has to have is in
it, and the literals of expressions are binary64 (`Rule.Steady`).  So every document that a
text is, is steady as long as integers may come up and results are allowed anywhere
(`Document.steady_of_readIn`).
-/

import Stylesheet.Proofs.Grammar.Bare
import Stylesheet.Proofs.Node.Steady

namespace Stylesheet

/-- Whether a tree has what its statements have to have. -/
abbrev Node.complete (n : Node) : Bool :=
  n.steady true true true

/-- Whether the expressions among some arguments have binary64 literals. -/
structure Arguments.Steady (args : Arguments) : Prop where
  positional : ∀ e ∈ args.positional, e.steady true
  keywords : ∀ k ∈ args.keywords, k.2.steady true

/-- Whether the expression of an argument has binary64 literals. -/
def Argument.steady : Argument → Bool
  | positional e => e.steady true
  | keyword _ e => e.steady true

/-- Whether what a rule reads has what it has to have. -/
def Rule.Steady : {α : Type} → Rule α → α → Prop
  | _, .sheet, b | _, .block, b => b.Fits fun ns => Node.steadyAll true true true ns
  | _, .statement, b => b.Fits fun o => ∀ n ∈ o, n.complete
  | _, .bufferBody, o | _, .flushBody, o | _, .directiveBody, o =>
    ∀ b ∈ o, Built.Fits (fun ns => Node.steadyAll true true true ns) b
  | _, .comment, n | _, .loudComment, n | _, .silentComment, n | _, .assignment, n
  | _, .importStatement, n | _, .extend, n | _, .inclusion, n | _, .returnStatement, n
  | _, .debug, n | _, .warn, n | _, .declaration, n => n.complete
  | _, .buffer, b | _, .flush, b | _, .badBuffer, b | _, .ifStatement, b | _, .elseClause, b
  | _, .forStatement, b | _, .eachStatement, b | _, .whileStatement, b | _, .media, b
  | _, .supports, b | _, .mixinDefinition, b | _, .functionDefinition, b | _, .directive, b
  | _, .rule, b => b.Fits fun n => n.complete
  | _, .bufferName, t | _, .atValue, t | _, .propertyName, t | _, .selector, t =>
    Expr.steadyTemplate true t
  | _, .params, ps | _, .paramList, ps => ∀ p ∈ ps, Parameter.steady true p
  | _, .param, p => Parameter.steady true p
  | _, .callArgs, args | _, .arguments, args => args.Steady
  | _, .argList, args => ∀ a ∈ args, a.steady
  | _, .arg, a | _, .keywordArg, a => a.steady
  | _, .addTail, t => t.2.steady true
  | _, .elseTest, e | _, .paramDefault, e | _, .commaList, e | _, .spaceList, e | _, .orExpr, e
  | _, .andExpr, e | _, .eqExpr, e | _, .relExpr, e | _, .addExpr, e | _, .mulExpr, e
  | _, .unary, e | _, .primary, e | _, .parens, e | _, .rawFunction, e | _, .call, e
  | _, .variableUse, e | _, .number, e | _, .quoted, e | _, .doubleQuoted, e
  | _, .singleQuoted, e | _, .interpolatedIdent, e | _, .color, e | _, .important, e
  | _, .ident, e | _, .interpolation, e => e.steady true
  | _, _, _ => True

/-- What has what it has to have is made of nodes that have it. -/
theorem Rule.Steady.made {α : Type} {r : Rule α} {a : α} (h : r.Steady a) :
    r.Made (fun n => n.complete) (fun _ => True) a := by
  cases r <;>
    first
    | exact h
    | exact trivial
    | exact h.mono fun _ => Node.steadyAll_iff.1
    | exact fun b hb => (h b hb).mono fun _ => Node.steadyAll_iff.1

/-! ### Expressions -/

namespace Expr

variable {first : Expr}

/-- A list of one expression is that expression, and a longer one a list. -/
theorem steady_listOf {separator : Separator} {rest : List Expr} (h : first.steady true)
    (hs : ∀ e ∈ rest, e.steady true) : (listOf separator first rest).steady true := by
  unfold listOf
  split
  · exact h
  · exact steadyAll_iff.2 (List.forall_mem_cons.2 ⟨h, hs⟩)

/-- Operators that keep expressions steady keep them so when applied from the left. -/
theorem steady_foldl {join : Expr → BinaryOp → Expr → Expr}
    (joins : ∀ l op r, l.steady true → r.steady true → (join l op r).steady true)
    {rest : List (BinaryOp × Expr)} (h : first.steady true) (hs : ∀ t ∈ rest, t.2.steady true) :
    (rest.foldl (fun left (op, right) => join left op right) first).steady true := by
  induction rest generalizing first with
  | nil => exact h
  | cons t rest ih =>
    rw [List.forall_mem_cons] at hs
    exact ih (joins _ _ _ h hs.1) hs.2

/-- An operation on steady operands is steady. -/
theorem steady_binary (op : BinaryOp) {l r : Expr} (hl : l.steady true) (hr : r.steady true) :
    (binary l op r).steady true := by
  rw [steady, Bool.and_eq_true]
  exact ⟨hl, hr⟩

/-- A chain of operators on steady operands is steady. -/
theorem steady_chain {rest : List (BinaryOp × Expr)} (h : first.steady true)
    (hs : ∀ t ∈ rest, t.2.steady true) : (chain first rest).steady true :=
  steady_foldl (fun _ op _ hl hr => steady_binary op hl hr) h hs

/-- A product of two number literals is a slashed literal, and any other an operation. -/
theorem steady_product (op : BinaryOp) {l r : Expr} (hl : l.steady true) (hr : r.steady true) :
    (l.product op r).steady true := by
  unfold product
  split
  · rfl
  · exact steady_binary op hl hr

/-- A word is a literal, whichever one it is. -/
theorem steady_ofWord (text : String) : (ofWord text).steady true := by
  unfold ofWord
  split
  · rfl
  · split
    · rfl
    · split <;> rfl

/-- A quoted string is steady if its holes are. -/
theorem steady_quotedOf {pieces : List (Fragment Expr)} (h : ∀ f ∈ pieces, f.steady true) :
    (quotedOf pieces).steady true := by
  unfold quotedOf
  extract_lets texts
  split
  · rfl
  · exact steadyTemplate_iff.2 h

end Expr

/-- A word with holes. -/
theorem Expr.steady_interpolated (head : Option String) {rest : List (Expr × Option String)}
    (h : ∀ t ∈ rest, t.1.steady true) :
    (interpolation ((head.map Fragment.text).toList ++ rest.flatMap fun (e, chunk) =>
      .hole e :: (chunk.map Fragment.text).toList) false).steady true := by
  have text (o : Option String) : ∀ f ∈ (o.map Fragment.text).toList, f.steady true := by
    cases o with
    | none => simp
    | some s => exact List.forall_mem_singleton.2 rfl
  refine steadyTemplate_iff.2 fun f hf => ?_
  rcases List.mem_append.1 hf with hf | hf
  · exact text head f hf
  · obtain ⟨t, ht, hf⟩ := List.mem_flatMap.1 hf
    rcases List.mem_cons.1 hf with rfl | hf
    · exact h t ht
    · exact text t.2 f hf

/-- More text leaves a template steady. -/
theorem Template.steady_addText {t : Template} (h : Expr.steadyTemplate true t) (s : String) :
    Expr.steadyTemplate true (t.addText s) := by
  match t with
  | [] => rfl
  | [.text r] => rfl
  | [.hole e] => simpa [addText, Expr.steadyTemplate] using h
  | .text r :: f :: fs =>
    rw [Expr.steadyTemplate] at h
    rw [addText, Expr.steadyTemplate]
    · exact steady_addText h s
    · nofun
  | .hole e :: f :: fs =>
    rw [Expr.steadyTemplate, Bool.and_eq_true] at h
    rw [addText, Expr.steadyTemplate, Bool.and_eq_true]
    · exact ⟨h.1, steady_addText h.2 s⟩
    · nofun

/-- A template is steady if its pieces are. -/
theorem Template.steady_ofPieces {pieces : List (Fragment Expr)}
    (h : ∀ f ∈ pieces, f.steady true) : Expr.steadyTemplate true (ofPieces pieces) := by
  unfold ofPieces
  refine List.foldlRecOn (motive := fun t => Expr.steadyTemplate true t) pieces _ rfl
    fun t ht f hf => ?_
  cases f with
  | text s => exact steady_addText ht s
  | hole e =>
    refine Expr.steadyTemplate_iff.2 fun f' hf' => ?_
    rcases List.mem_append.1 hf' with hf' | hf'
    · exact Expr.steadyTemplate_iff.1 ht f' hf'
    · exact List.mem_singleton.1 hf' ▸ h _ hf

/-- A call is steady if its arguments are. -/
theorem Expr.steady_call (name : String) {args : Arguments} (h : args.Steady) :
    (call name args.positional args.keywords).steady true := by
  have known : Builtin.steady true name := by
    cases e : Builtin.find? name <;> simp [Builtin.steady, e]
  simp [steady, known, steadyAll_iff.2 h.positional, steadyKeywords_iff.2 h.keywords]

/-- Some arguments are steady if each of them is. -/
theorem Arguments.steady_ofList {args : List Argument} (h : ∀ a ∈ args, a.steady) :
    (ofList args).Steady := by
  have setKey (key : String) {e : Expr} (he : e.steady true) (ks : List (String × Expr))
      (hk : ∀ k ∈ ks, k.2.steady true) : ∀ k ∈ setKey key e ks, k.2.steady true := by
    induction ks with
    | nil => exact List.forall_mem_singleton.2 he
    | cons k ks ih =>
      rw [List.forall_mem_cons] at hk
      rw [Stylesheet.setKey]
      split
      · exact List.forall_mem_cons.2 ⟨he, hk.2⟩
      · exact List.forall_mem_cons.2 ⟨hk.1, ih hk.2⟩
  unfold ofList
  refine List.foldlRecOn (motive := Arguments.Steady) args _ ⟨by simp, by simp⟩
    fun all hall a ha => ?_
  cases a with
  | positional e =>
    refine ⟨fun e' he' => ?_, hall.keywords⟩
    rcases List.mem_append.1 he' with he' | he'
    · exact hall.positional e' he'
    · exact List.mem_singleton.1 he' ▸ h _ ha
  | keyword k e => exact ⟨hall.positional, setKey k (h _ ha) _ hall.keywords⟩

/-! ### Statements -/

namespace Grammar

open Peg (Reads)

/-- A node with a block is complete if its head is steady and its children are. -/
theorem steady_branch {head : Head} (h : head.steady true true) {b : Built (List Node)}
    (body : b.Fits fun ns => Node.steadyAll true true true ns) (s : Span) :
    (branch head b s).Fits fun n => n.complete := by
  refine body.bind fun ns inside => .ok ?_
  rw [Node.complete, Node.steady, Head.within_anywhere, Bool.and_eq_true]
  exact ⟨h, inside⟩

/-- A node without a block is complete if its head is steady. -/
theorem steady_leaf {head : Head} (h : head.steady true true) (s : Span) :
    (leaf head s).complete := by
  rw [leaf, Node.complete, Node.steady, Bool.and_eq_true]
  exact ⟨h, rfl⟩

/-- An `@if` with one more clause is complete if the clause is. -/
theorem steady_addElse {n clause : Node} (h : n.complete) (k : clause.complete) :
    (n.addElse clause).complete := by
  match n with
  | .plain .. => exact h
  | .cond i t cs none =>
    simp only [Node.complete, Node.steady, Bool.and_eq_true, Node.addElse, Node.steadyOption]
      at h ⊢
    exact ⟨h.1, k⟩
  | .cond i t cs (some o) =>
    simp only [Node.complete, Node.steady, Bool.and_eq_true, Node.addElse, Node.steadyOption]
      at h ⊢
    exact ⟨h.1, steady_addElse h.2 k⟩

/-- Statements are complete if each of them is. -/
theorem steady_statements {found : List (Built (Option Node))}
    (h : ∀ b ∈ found, b.Fits fun o => ∀ n ∈ o, n.complete) :
    (statements found).Fits fun ns => Node.steadyAll true true true ns :=
  (ends_statements h).mono fun _ => Node.steadyAll_iff.2

/-- A flush is complete if its name is steady. -/
theorem steady_flushOf {name : Template} (h : Expr.steadyTemplate true name)
    (body : Option (Built (List Node))) (s : Span) :
    (flushOf name body s).Fits fun n => n.complete := by
  cases body with
  | none =>
    have own : (Head.flush { written := name } []).steady true true := h
    exact .ok (steady_leaf own s)
  | some b =>
    cases b with
    | ok ns => exact .error trivial
    | error d => exact .error trivial

/-- An `@else` clause is complete if its condition is steady and its children are. -/
theorem steady_elseOf {test : Option Expr} (h : ∀ e ∈ test, e.steady true)
    {body : Built (List Node)} (inside : body.Fits fun ns => Node.steadyAll true true true ns)
    (s : Span) :
    Built.Fits (fun n : Node => n.complete)
      (do let children ← body; return .cond (infoAt s) test children none) := by
  have steady : test.all (Expr.steady true) := by cases test <;> simp_all
  refine inside.bind fun children within => .ok ?_
  simp [Node.complete, Node.steady, Node.steadyOption, steady, within]

/-- An `@if` is complete if its condition is steady, and its children and its clauses are. -/
theorem steady_ifOf {test : Expr} (h : test.steady true) {body : Built (List Node)}
    (inside : body.Fits fun ns => Node.steadyAll true true true ns) {clauses : List (Built Node)}
    (fits : ∀ c ∈ clauses, c.Fits fun n => n.complete) (s : Span) :
    (ifOf test body clauses s).Fits fun n => n.complete := by
  refine inside.bind fun children within => (ends_parts fits).bind fun others complete => .ok ?_
  refine foldl_addElse (fun _ _ => steady_addElse) ?_ complete
  simp [Node.complete, Node.steady, Node.steadyOption, h, within]

section

variable {rules : Peg.Rules Rule} {n : Nat}

/-- Arguments, or others of a list. -/
theorem reads_further {α : Type} {p : Peg Rule α} {fits : α → Prop} (h : Reads rules n p fits) :
    Reads rules n (further p) fun as => ∀ a ∈ as, fits a :=
  .star (.right h)

/-- One and others, as a list. -/
theorem reads_list {α : Type} {p : Peg Rule α} {fits : α → Prop} (h : Reads rules n p fits) :
    Reads rules n (List.cons <$> p <*> further p) fun as => ∀ a ∈ as, fits a :=
  .app (reads_further h) (.map (h.mono fun _ ha _ hs => List.forall_mem_cons.2 ⟨ha, hs⟩))

/-- A list that may be absent, and then is empty. -/
theorem reads_getD {α : Type} {p : Peg Rule (List α)} {fits : α → Prop}
    (h : Reads rules n p fun as => ∀ a ∈ as, fits a) :
    Reads rules n (.opt p) fun o => ∀ a ∈ o.getD [], fits a := by
  refine h.opt.mono fun o inside => ?_
  cases o with
  | none => exact List.forall_mem_nil _
  | some as => exact inside as rfl

/-- A first expression and others, put together. -/
theorem reads_joined {α : Type} {p : Peg Rule Expr} {q : Peg Rule (List α)}
    {join : Expr → List α → Expr} {fits : α → Prop}
    (joins : ∀ e rest, e.steady true → (∀ a ∈ rest, fits a) → (join e rest).steady true)
    (hp : Reads rules n p fun e => e.steady true)
    (hq : Reads rules n q fun rest => ∀ a ∈ rest, fits a) :
    Reads rules n (join <$> p <*> q) fun e => e.steady true :=
  .app hq (.map (hp.mono fun e he rest hs => joins e rest he hs))

/-- An expression, or several with separators between them. -/
theorem reads_separated {separator : Separator} {p : Peg Rule Expr} {q : Peg Rule (List Expr)}
    (hp : Reads rules n p fun e => e.steady true)
    (hq : Reads rules n q fun rest => ∀ e ∈ rest, e.steady true) :
    Reads rules n (Expr.listOf separator <$> p <*> q) fun e => e.steady true :=
  reads_joined (fun _ _ => Expr.steady_listOf) hp hq

/-- One level of operators that group to the left. -/
theorem reads_level {p : Peg Rule Expr} {q : Peg Rule (BinaryOp × Expr)}
    (hp : Reads rules n p fun e => e.steady true)
    (hq : Reads rules n q fun t => t.2.steady true) :
    Reads rules n (Expr.chain <$> p <*> .star q) fun e => e.steady true :=
  reads_joined (fun _ _ => Expr.steady_chain) hp hq.star

/-- An operator, whatever it is read from, and its right operand. -/
theorem reads_operand {p : Peg Rule BinaryOp} {q : Peg Rule Expr}
    (hq : Reads rules n q fun e => e.steady true) :
    Reads rules n (Prod.mk <$> p <*> q) fun t => t.2.steady true :=
  .app hq (.map (.mono .any fun _ _ _ he => he))

variable (calls : ∀ {α : Type} (r : Rule α), Reads rules n (on r) r.Steady)

include calls

/-- Words, whatever they are read from, and holes. -/
theorem reads_template {words : Peg Rule (Fragment Expr)}
    (h : Reads rules n words fun f => f.steady true) :
    Reads rules n (Template.ofPieces <$> .plus ((Fragment.hole <$> on .interpolation) <|> words))
      fun t => Expr.steadyTemplate true t := by
  have pieces : Reads rules n ((Fragment.hole <$> on .interpolation) <|> words)
      fun f => f.steady true := .alt (.map (calls .interpolation)) h
  exact .map (pieces.plus.mono fun _ hs => Template.steady_ofPieces hs)

/-- A string in either quotes is steady, as the interpolations in it are. -/
theorem reads_stringIn (quote : Char) :
    Reads rules n (stringIn quote) fun e => e.steady true := by
  have pieces : Reads rules n ((Fragment.hole <$> on .interpolation) <|>
      ((fun pieces => Fragment.text (String.ofList pieces.flatten)) <$>
        .plus (stringPiece quote))) fun f => f.steady true :=
    .alt (.map (calls .interpolation)) (reads_given fun _ => rfl)
  exact .map (.left (.right (pieces.star.mono fun _ hs => Expr.steady_quotedOf hs)))

/-- A word with holes. -/
theorem reads_interpolatedIdent :
    Reads rules n (body .interpolatedIdent) Rule.interpolatedIdent.Steady := by
  have holes : Reads rules n (Prod.mk <$> on .interpolation <*> .opt (on .identChunk))
      fun t => t.1.steady true :=
    .app_any (.map ((calls .interpolation).mono fun _ he _ => he))
  exact .app holes.plus (.map (.mono .any fun head _ _ h => Expr.steady_interpolated head h))

/-- The arguments between parentheses. -/
theorem reads_arguments : Reads rules n (body .arguments) Rule.arguments.Steady :=
  .map (.left (.left (.right ((reads_getD (calls .argList)).mono fun _ h =>
    Arguments.steady_ofList h))))

/-- The parameters between parentheses. -/
theorem reads_params : Reads rules n (body .params) Rule.params.Steady :=
  .map (.left (.left (.right (reads_getD (calls .paramList)))))

/-- A parameter, with or without a default. -/
theorem reads_param : Reads rules n (body .param) Rule.param.Steady := by
  refine .app (calls .paramDefault).opt (.map (.mono .any ?_))
  intro name _ default h
  cases default with
  | none => rfl
  | some e => exact h e rfl

/-- A statement of a keyword and an expression. -/
theorem reads_keywordValue (word : String) {head : Option Expr → Head}
    (h : ∀ e, e.steady true → (head (some e)).steady true true) :
    Reads rules n (keywordValue word head) fun m => m.complete :=
  reads_stamped (.map (.left (.left (.right ((calls .commaList).mono fun e he =>
    steady_leaf (h e he))))))

/-- An inclusion is a name and arguments. -/
theorem reads_inclusion : Reads rules n (body .inclusion) Rule.inclusion.Steady := by
  refine reads_stamped (.app (.left (.left (calls .callArgs).opt)) (.map (.mono .any ?_)))
  intro name _ args h
  have steady : (args.getD {}).Steady := by
    cases args with
    | none => exact ⟨by simp, by simp⟩
    | some args => exact h args rfl
  refine steady_leaf ?_
  rw [Head.steady, Bool.and_eq_true]
  exact ⟨Expr.steadyAll_iff.2 steady.positional, Expr.steadyKeywords_iff.2 steady.keywords⟩

/-- A declaration is the template of a name, a value and a block that may be left out. -/
theorem reads_declaration : Reads rules n (body .declaration) Rule.declaration.Steady := by
  refine reads_stamped (.app (.left (.left (calls .commaList))) ?_)
  refine .map (.left (.left (.left (.left ((calls .propertyName).mono ?_)))))
  intro name hn value hv
  refine steady_leaf ?_
  rw [Head.steady, Bool.and_eq_true]
  exact ⟨hn, hv⟩

/-- A statement of a head that is read, and a block. -/
theorem reads_branch {p : Peg Rule (Built (List Node) → Span → Built Node)}
    (h : Reads rules n p fun build => ∃ head : Head, head.steady true true ∧ build = branch head) :
    Reads rules n (stamped (p <*> on .block)) fun b => b.Fits fun m => m.complete :=
  reads_stamped (.app (calls .block) (h.mono fun _ ⟨_, own, e⟩ _ inside s =>
    e ▸ steady_branch own inside s))

/-- An `@for` is two bounds and a block. -/
theorem reads_forStatement : Reads rules n (body .forStatement) Rule.forStatement.Steady := by
  refine reads_branch calls (.app (.left (calls .orExpr)) (.app_any (.app (.left (calls .orExpr))
    (.map (.mono .any ?_)))))
  intro var _ start hs exclusive stop ht
  refine ⟨_, ?_, rfl⟩
  simp only [Head.steady, Option.any_some, Bool.true_and, Bool.and_eq_true]
  exact ⟨hs, ht⟩

/-- A definition: a name, parameters and a block. -/
theorem reads_definition {p : Peg Rule String} {head : String → List Parameter → Head}
    (h : ∀ name params, params.all (Parameter.steady true) → (head name params).steady true true) :
    Reads rules n (stamped ((fun name params body => branch (head name (params.getD [])) body) <$>
      p <*> (.opt (on .params) <* on .gap) <*> on .block)) fun b => b.Fits fun m => m.complete :=
  reads_branch calls (.app (.left (reads_getD (calls .params))) (.map (.mono .any
    fun name _ _ fits => ⟨_, h name _ (List.all_eq_true.2 fits), rfl⟩)))

/-- A directive is a template and a block that may be left out. -/
theorem reads_directive : Reads rules n (body .directive) Rule.directive.Steady := by
  refine reads_stamped (.app (calls .directiveBody) (.app (calls .atValue).opt
    (.map (.mono .any ?_))))
  intro name _ value h body inside
  have pieces : ∀ f ∈ Fragment.text ("@" ++ name) :: value.getD [], f.steady true := by
    refine List.forall_mem_cons.2 ⟨rfl, ?_⟩
    cases value with
    | none => simp
    | some value => exact Expr.steadyTemplate_iff.1 (h value rfl)
  exact steady_branch (by exact Template.steady_ofPieces pieces) (ends_getD (by rfl) inside)

/-- A rule reads what is complete, if the rules that it calls do. -/
theorem reads_body_steady {α : Type} (r : Rule α) : Reads rules n (body r) r.Steady := by
  cases r with
  | sheet => exact .map (.right ((calls .statement).star.mono fun _ h => steady_statements h))
  | block =>
    exact .map (.left (.right ((calls .statement).star.mono fun _ h => steady_statements h)))
  | statement => exact reads_statement fun r => (calls r).mono fun _ => Rule.Steady.made
  | bufferBody | flushBody | directiveBody => exact reads_block (calls .block)
  | comment => exact .alt (calls .loudComment) (calls .silentComment)
  | loudComment | silentComment | importStatement =>
    exact reads_stamped (reads_given fun _ => steady_leaf rfl)
  | returnStatement => exact reads_keywordValue calls _ fun _ h => h
  | debug => exact reads_keywordValue calls _ fun _ h => h
  | warn => exact reads_keywordValue calls _ fun _ h => h
  | extend =>
    exact reads_stamped (.map (.left (.right ((calls .atValue).mono fun _ h => steady_leaf h))))
  | inclusion => exact reads_inclusion calls
  | declaration => exact reads_declaration calls
  | assignment =>
    exact reads_stamped (.app_any (.app (calls .commaList)
      (.map (.mono .any fun _ _ _ h _ => steady_leaf h))))
  | buffer =>
    exact reads_stamped (.app (calls .bufferBody).right (.map (.right ((calls .bufferName).mono
      fun _ h _ inside => steady_branch (by exact h) (ends_getD (by rfl) inside)))))
  | flush =>
    exact reads_stamped (.app_any (.map (.right
      ((calls .bufferName).mono fun _ h body => steady_flushOf h body))))
  | badBuffer => exact reads_stamped (reads_given fun _ _ => .error trivial)
  | ifStatement =>
    exact reads_stamped (.app (calls .elseClause).star (.app (calls .block) (.map (.left (.right
      ((calls .commaList).mono fun _ h _ inside _ fits => steady_ifOf h inside fits))))))
  | elseClause =>
    exact reads_stamped (.app (calls .block) (.map (.right
      ((calls .elseTest).opt.mono fun _ h _ inside => steady_elseOf h inside))))
  | forStatement => exact reads_forStatement calls
  | eachStatement =>
    exact reads_branch calls (.app (.left (calls .commaList)) (.map (.mono .any fun var _ _ h =>
      ⟨.eachLoop var (some _), h, rfl⟩)))
  | whileStatement =>
    exact reads_branch calls (.map (.left (.right ((calls .commaList).mono fun e h =>
      ⟨.whileLoop (some e), h, rfl⟩))))
  | media =>
    exact reads_branch calls (.map (.right ((calls .atValue).mono fun query h =>
      ⟨.media query none, h, rfl⟩)))
  | supports =>
    exact reads_branch calls (.map (.right ((calls .atValue).mono fun condition h =>
      ⟨.supports condition none, h, rfl⟩)))
  | rule =>
    exact reads_branch calls (.map ((calls .selector).mono fun selector h =>
      ⟨.rule selector none, h, rfl⟩))
  | mixinDefinition | functionDefinition => exact reads_definition calls fun _ _ h => h
  | directive => exact reads_directive calls
  | bufferName | atValue =>
    exact reads_template calls (.alt (reads_given fun _ => rfl) (reads_given fun _ => rfl))
  | propertyName => exact reads_template calls (.app_any (reads_given fun _ _ => rfl))
  | selector =>
    exact reads_template calls (.alt (reads_given fun _ => rfl) (.alt (reads_given fun _ => rfl)
      (reads_given fun _ => rfl)))
  | params => exact reads_params calls
  | paramList => exact reads_list (calls .param)
  | param => exact reads_param calls
  | paramDefault => exact .right (calls .spaceList)
  | elseTest => exact .left (.right (calls .commaList))
  | callArgs => exact calls .arguments
  | argList => exact reads_list (calls .arg)
  | arg => exact .alt (calls .keywordArg) (.map (calls .spaceList))
  | keywordArg => exact .app (calls .spaceList) (.map (.mono .any fun _ _ _ h => h))
  | commaList => exact reads_separated (calls .spaceList) (reads_further (calls .spaceList))
  | spaceList => exact reads_separated (calls .orExpr) (.star (.right (calls .orExpr)))
  | orExpr => exact reads_level (calls .andExpr) (.map (.right (calls .andExpr)))
  | andExpr => exact reads_level (calls .eqExpr) (.map (.right (calls .eqExpr)))
  | eqExpr => exact reads_level (calls .relExpr) (reads_operand (calls .relExpr))
  | relExpr => exact reads_level (calls .addExpr) (reads_operand (calls .addExpr))
  | addExpr => exact reads_level (calls .mulExpr) (calls .addTail)
  | addTail => exact .alt (reads_operand (calls .mulExpr)) (reads_operand (calls .mulExpr))
  | mulExpr =>
    exact reads_joined (fun _ _ => Expr.steady_foldl fun _ op _ => Expr.steady_product op)
      (calls .unary) (.star (reads_operand (calls .unary)))
  | unary =>
    exact .alt (.map (.right (calls .unary))) (.alt (calls .primary)
      (.app (calls .unary) (.map (.mono .any fun _ _ _ h => h))))
  | primary =>
    exact .alt (calls .parens) <| .alt (calls .rawFunction) <| .alt (calls .call) <|
      .alt (calls .variableUse) <| .alt (calls .number) <| .alt (calls .quoted) <|
      .alt (calls .interpolatedIdent) <| .alt (calls .color) <| .alt (calls .important)
        (calls .ident)
  | parens | interpolation => exact .left (.left (.right (calls .commaList)))
  | rawFunction | number => exact .app_any (reads_given fun _ _ => rfl)
  | call =>
    exact .app (calls .arguments) (.map (.mono .any fun name _ _ h => Expr.steady_call name h))
  | arguments => exact reads_arguments calls
  | variableUse | important => exact reads_given fun _ => rfl
  | color => exact .app_any (.app_any (.app_any (reads_given fun _ _ _ _ => rfl)))
  | quoted => exact .alt (calls .doubleQuoted) (calls .singleQuoted)
  | doubleQuoted => exact reads_stringIn calls _
  | singleQuoted => exact reads_stringIn calls _
  | interpolatedIdent => exact reads_interpolatedIdent calls
  | ident => exact reads_given Expr.steady_ofWord
  | _ => exact .any

end

/-- **Every rule reads what is complete.** -/
theorem closed_steady : Closed (fun _ => True) fun _ r => r.Steady :=
  fun _ => reads_body_steady

end Grammar

/-- **The content of a document is complete**, in either syntax. -/
theorem Document.steady_of_readIn {inputSyntax : Syntax} {file text : String} {log log' : Log}
    {tree : Node} (h : Document.readIn inputSyntax file text log = (.ok tree, log')) :
    ∃ cs, tree = .plain {} .root cs ∧ Node.steadyAll true true true cs := by
  obtain ⟨cs, e, steady⟩ := Document.fits_of_readIn Grammar.closed_steady (fun _ => trivial) h
  cases steady with
  | ok steady => exact ⟨cs, e, steady⟩

end Stylesheet
