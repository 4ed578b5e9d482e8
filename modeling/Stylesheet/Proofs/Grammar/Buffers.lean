/-
# Statements about buffers

A statement that starts with `@buffer` or `@flush`, as a whole word (`Grammar.AtKeyword`), is
never read as something else.  The rules for the two come before all other rules that match such a
text, and where neither matches, the one for a missing name does, which refuses the text
(`Grammar.leads_handled`).  So in a text that is accepted, the statement is the buffer or
the flush that its keyword says, with a name, and no other statement is either
(`Document.keepsBuffers_of_parse`).
-/

import Stylesheet.Proofs.Grammar.Bare
import Stylesheet.Proofs.Grammar.Statements
import Stylesheet.Proofs.Grammar.Words

namespace Stylesheet

namespace Text

/-- A character of a name lies between the hyphen and `z`. -/
theorem range_of_part {x : Char} (h : Name.isPart x = true) :
    0x2D ≤ x.toNat ∧ x.toNat ≤ 0x7A := by
  have part : x.isUpper ∨ x.isLower ∨ x.isDigit ∨ x = '_' ∨ x = '-' := by
    have split : (x.isUpper || x.isLower || x.isDigit || x == '_' || x == '-') = true := h
    simpa [or_assoc] using split
  rcases part with upper | lower | digit | rfl | rfl
  · have bounds : 'A'.val ≤ x.val ∧ x.val ≤ 'Z'.val := of_decide_eq_true upper
    exact ⟨Nat.le_trans (by decide) bounds.1, Nat.le_trans bounds.2 (by decide)⟩
  · obtain ⟨least, most⟩ := Bool.and_eq_true_iff.1 lower
    exact ⟨Nat.le_trans (by decide) (of_decide_eq_true least), of_decide_eq_true most⟩
  · obtain ⟨least, most⟩ := Bool.and_eq_true_iff.1 digit
    exact ⟨Nat.le_trans (by decide) (of_decide_eq_true least),
      Nat.le_trans (of_decide_eq_true most) (by decide)⟩
  · decide
  · decide

/-- A character of a name is no blank. -/
theorem not_blank_of_part {x : Char} (h : Name.isPart x = true) : isBlank x = false := by
  have range := range_of_part h
  simp only [isBlank, isSpace, Bool.or_eq_false_iff, Bool.and_eq_false_iff, decide_eq_false_iff_not,
    beq_eq_false_iff_ne, ne_eq]
  omega

end Text

namespace Template

/-- Whether a template is not empty and does not start with a blank. -/
def IsName (t : Template) : Prop :=
  ∃ piece others, t = piece :: others ∧
    ∀ s, piece = .text s → ∃ x cs, s.toList = x :: cs ∧ Text.isBlank x = false

/-- A name with more text after it is still one. -/
theorem isName_addText {t : Template} (h : t.IsName) (s : String) : (t.addText s).IsName := by
  obtain ⟨piece, others, rfl, first⟩ := h
  cases others with
  | nil =>
    cases piece with
    | hole e => exact ⟨.hole e, _, rfl, nofun⟩
    | text r =>
      refine ⟨.text (r ++ s), [], rfl, ?_⟩
      rintro _ ⟨⟩
      obtain ⟨x, cs, e, black⟩ := first r rfl
      exact ⟨x, cs ++ s.toList, by rw [String.toList_append, e]; rfl, black⟩
  | cons other others =>
    cases piece with
    | hole e => exact ⟨.hole e, _, rfl, nofun⟩
    | text r => exact ⟨.text r, _, rfl, first⟩

/-- Joined pieces, the first of which does not start with a blank. -/
theorem isName_ofPieces {pieces : List (Fragment Expr)} (h : IsName pieces) :
    (ofPieces pieces).IsName := by
  obtain ⟨piece, others, rfl, first⟩ := h
  refine List.foldlRecOn others _ ?_ fun t h piece _ => ?_
  · cases piece with
    | text s => exact ⟨.text s, [], rfl, first⟩
    | hole e => exact ⟨.hole e, [], rfl, nofun⟩
  · cases piece with
    | text s => exact isName_addText h s
    | hole e =>
      obtain ⟨first, others, rfl, black⟩ := h
      exact ⟨first, _, rfl, black⟩

end Template

namespace Node

/-- An `@if` stays what it is when clauses are put after it. -/
theorem kind_foldl_addElse (clauses : List Node) (n : Node) :
    (clauses.foldl (fun n clause => n.addElse clause) n).kind = n.kind := by
  induction clauses generalizing n with
  | nil => rfl
  | cons clause clauses ih =>
    have step : (n.addElse clause).kind = n.kind := by
      unfold addElse
      split <;> rfl
    exact (ih _).trans step

end Node

namespace Grammar

variable {α β : Type} {c d : Cursor}

/-- Whether a text starts with a word that does not go on as a longer name. -/
def AtKeyword (word : String) (text : List Char) : Prop :=
  ∃ rest, text = word.toList ++ rest ∧ Stops Name.isPart rest

/-- A keyword is read only where its letters are and no further character of a name is. -/
theorem leads_keyword (word : String) :
    Leads (keyword word) fun c _ _ => AtKeyword word c.rest := by
  refine (Leads.lit.left .no).mono ?_
  rintro c - - ⟨e, -, ⟨⟨rest, starts⟩, rfl⟩, ends, -⟩
  refine ⟨rest, starts.symm, ?_⟩
  cases rest with
  | nil => exact stops_nil _
  | cons x rest =>
    refine stops_cons.2 (Bool.eq_false_iff.2 fun part => ?_)
    have goesOn : Takes c.file (on .nameChar) [x] rest (· = ()) := takes_nameChar part rest
    obtain ⟨a, -, read⟩ := goesOn (c.skip word.toList.length) rfl (rest_skip_of_eq starts.symm)
    exact nomatch ends.unique read

/-- A piece of the name of a buffer, where no space is. -/
theorem leads_namePiece : Leads
    ((Fragment.hole <$> on .interpolation)
      <|> (textPiece <$> .spanOne Name.isPart)
      <|> (textPiece <$> (.spanOne (fun c => c == ' ' || c == '\t') <*
        .ahead (.char fun c => Name.isPart c || c == '#'))))
    fun c piece _ => Stops Text.isSpace c.rest →
      ∀ s, piece = .text s → ∃ x cs, s.toList = x :: cs ∧ Text.isBlank x = false := by
  refine .alt (.map fun _ _ _ _ _ => nofun) (.alt (.map (Leads.spanOne.mono ?_)) (.map ?_))
  · rintro c _ - ⟨x, part, -, xs, rfl⟩ - s ⟨⟩
    exact ⟨x, xs, String.toList_ofList, Text.not_blank_of_part part⟩
  · refine (Leads.spanOne.left .later).mono ?_
    rintro c _ - ⟨-, -, ⟨x, space, ⟨rest, here⟩, -⟩, -⟩ stops
    rw [← here, List.singleton_append, stops_cons] at stops
    rcases Bool.or_eq_true_iff.1 space with blank | blank <;> rw [beq_iff_eq.1 blank] at stops <;>
      cases stops

/-- What the rule for a buffer's name reads is a name, where no space comes first. -/
theorem leads_bufferName : Leads (on .bufferName) fun c t _ =>
    Stops Text.isSpace c.rest → t.IsName := by
  refine .call (.map (leads_namePiece.plus.mono ?_))
  rintro c _ - ⟨piece, others, -, rfl, first⟩ stops
  exact Template.isName_ofPieces ⟨piece, others, rfl, first stops⟩

/-- A keyword and a name. -/
theorem leads_named (word : String) : Leads (keyword word *> on .gap *> on .bufferName)
    fun c name _ => AtKeyword word c.rest ∧ name.IsName := by
  refine (((leads_keyword word).right leads_gap).right leads_bufferName).mono ?_
  rintro c name - ⟨e, -, ⟨_, -, atWord, -, -, -, stops⟩, isName⟩
  exact ⟨atWord, isName stops⟩

/-- What a statement with a keyword and a name is built from. -/
theorem leads_directive {γ : Type} (word : String) (build : Template → γ → Span → Built Node)
    (q : Peg Rule γ) :
    Leads (stamped (build <$> (keyword word *> on .gap *> on .bufferName) <*> q)) fun c b _ =>
      AtKeyword word c.rest ∧ ∃ name body s, name.IsName ∧ b = build name body s := by
  have start : Leads (build <$> (keyword word *> on .gap *> on .bufferName)) fun c f _ =>
      AtKeyword word c.rest ∧ ∃ name, name.IsName ∧ f = build name :=
    .map ((leads_named word).mono fun c name _ h => ⟨h.1, name, h.2, rfl⟩)
  refine leads_stamped ((start.app .later).mono ?_)
  rintro c _ - ⟨_, body, -, rfl, ⟨atWord, name, isName, rfl⟩, -⟩
  exact ⟨atWord, name, body, c.span, isName, rfl⟩

/-- **A buffer has a name.** -/
theorem leads_buffer : Leads (on .buffer) fun c b _ => AtKeyword "@buffer" c.rest ∧
    ∀ n, b = .ok n → ∃ info name content,
      n = .plain info (.buffer { written := name }) content ∧ name.IsName := by
  refine .call ((leads_directive "@buffer" _ _).mono ?_)
  rintro c _ - ⟨atWord, name, body, s, isName, rfl⟩
  refine ⟨atWord, fun n e => ?_⟩
  obtain ⟨cs, -, rfl⟩ := branch_eq_ok.1 e
  exact ⟨infoAt s, name, cs, rfl, isName⟩

/-- **A flush has a name and nothing in it.** -/
theorem leads_flush : Leads (on .flush) fun c b _ => AtKeyword "@flush" c.rest ∧
    ∀ n, b = .ok n → ∃ info name,
      n = .plain info (.flush { written := name } []) [] ∧ name.IsName := by
  refine .call ((leads_directive "@flush" _ _).mono ?_)
  rintro c _ - ⟨atWord, name, body, s, isName, rfl⟩
  refine ⟨atWord, fun n e => ?_⟩
  obtain ⟨-, rfl⟩ := flushOf_eq_ok.1 e
  exact ⟨infoAt s, name, rfl, isName⟩

/-! ### Other statements -/

/-- Whether a node is neither a buffer nor a flush. -/
def Ordinary (n : Node) : Prop :=
  n.kind ≠ .buffer ∧ n.kind ≠ .flush

/-- A node with a block is ordinary unless it is made as a buffer or a flush. -/
theorem ordinary_branch {head : Head} {body : Built (List Node)} {s : Span} {n : Node}
    (e : branch head body s = .ok n) (h : head.kind ≠ .buffer ∧ head.kind ≠ .flush) :
    Ordinary n := by
  obtain ⟨cs, -, rfl⟩ := branch_eq_ok.1 e
  exact h

/-- An `@if` is ordinary. -/
theorem ordinary_if {test : Expr} {body : Built (List Node)} {clauses : List (Built Node)}
    {s : Span} {n : Node} (e : ifOf test body clauses s = .ok n) : Ordinary n := by
  obtain ⟨cs, others, -, -, rfl⟩ := ifOf_eq_ok.1 e
  rw [Ordinary, Node.kind_foldl_addElse]
  exact ⟨nofun, nofun⟩

end Grammar

/-- Whether what a rule for statements of one form builds is ordinary; those for buffers and
flushes are left out. -/
def Rule.Ordinary : {α : Type} → Rule α → α → Prop
  | _, .comment, n | _, .loudComment, n | _, .silentComment, n | _, .assignment, n
  | _, .importStatement, n | _, .extend, n | _, .inclusion, n | _, .returnStatement, n
  | _, .debug, n | _, .warn, n | _, .declaration, n => Grammar.Ordinary n
  | _, .ifStatement, b | _, .forStatement, b | _, .eachStatement, b | _, .whileStatement, b
  | _, .media, b | _, .supports, b | _, .mixinDefinition, b | _, .functionDefinition, b
  | _, .directive, b | _, .rule, b => ∀ n, b = .ok n → Grammar.Ordinary n
  | _, _, _ => True

namespace Grammar

variable {c d : Cursor} {b : Built (Option Node)}

/-- What is built at whichever place. -/
theorem leads_stamped_any {α : Type} {p : Peg Rule (Span → α)} {fits : α → Prop}
    (h : Leads p fun _ build _ => ∀ s, fits (build s)) : Leads (stamped p) fun _ a _ => fits a :=
  leads_stamped (h.mono fun c _ _ fit => fit c.span)

/-- Only the rules for buffers and flushes make a buffer or a flush. -/
theorem leads_ordinary {α : Type} (r : Rule α) : Leads (on r) fun _ a _ => r.Ordinary a := by
  have loud : Leads (on .loudComment) fun _ n _ => Ordinary n :=
    .call (leads_stamped_any (.given fun _ _ => ⟨nofun, nofun⟩))
  have silent : Leads (on .silentComment) fun _ n _ => Ordinary n :=
    .call (leads_stamped_any (.given fun _ _ => ⟨nofun, nofun⟩))
  cases r with
  | loudComment => exact loud
  | silentComment => exact silent
  | comment => exact .call (.alt loud silent)
  | importStatement | extend | returnStatement | debug | warn =>
    exact .call (leads_stamped_any (.given fun _ _ => ⟨nofun, nofun⟩))
  | inclusion | declaration =>
    exact .call (leads_stamped_any (.app_any (.given fun _ _ _ => ⟨nofun, nofun⟩)))
  | assignment =>
    exact .call (leads_stamped_any (.app_any (.app_any (.given fun _ _ _ _ => ⟨nofun, nofun⟩))))
  | ifStatement =>
    exact .call (leads_stamped_any
      (.app_any (.app_any (.given fun _ _ _ _ _ e => ordinary_if e))))
  | forStatement =>
    exact .call (leads_stamped_any (.app_any (.app_any (.app_any (.app_any
      (.given fun _ _ _ _ _ _ _ e => ordinary_branch e ⟨nofun, nofun⟩))))))
  | eachStatement | mixinDefinition | functionDefinition | directive =>
    exact .call (leads_stamped_any (.app_any (.app_any
      (.given fun _ _ _ _ _ e => ordinary_branch e ⟨nofun, nofun⟩))))
  | whileStatement | media | supports | rule =>
    exact .call (leads_stamped_any (.app_any
      (.given fun _ _ _ _ e => ordinary_branch e ⟨nofun, nofun⟩)))
  | _ => exact fun _ _ _ _ => trivial

/-! ### What a keyword decides -/

/-- The keywords of statements about buffers. -/
def bufferWords : List String :=
  ["@buffer", "@flush"]

/-- What does not match before an at-sign is no statement about buffers. -/
theorem not_atKeyword_of_gives {α : Type} {p : Peg Rule α} {a : α}
    (fails : forecast ['@'] 200 p = .fails) (h : Gives p c (.ok a d)) {word : String}
    (hw : word ∈ bufferWords) : ¬ AtKeyword word c.rest := by
  rintro ⟨rest, e, -⟩
  have marked : ∀ word ∈ bufferWords, word.toList = '@' :: word.toList.tail := by decide
  rw [marked word hw] at e
  exact nomatch h.unique (Fails.of_forecast ['@'] 200 fails (word.toList.tail ++ rest) c e)

/-- A buffer statement without a name, by either keyword, is read by the rule that refuses it. -/
theorem takes_badBuffer {file : String} {word : String} (hw : word ∈ bufferWords)
    {rest : List Char} (stops : Stops Name.isPart rest) :
    Takes file (on .badBuffer) word.toList rest fun _ => True := by
  have found : Takes file (.oneOf "@buffer" ["@flush"] : Peg Rule String) word.toList rest
      fun _ => True := by
    rcases List.mem_pair.1 hw with rfl | rfl
    · exact .alt (.map ((Takes.lit _ _).mono fun _ _ => trivial))
    · exact .alt_else (.of_forecast "@flush".toList 200 (by decide) rest)
        (.map ((Takes.lit _ _).mono fun _ _ => trivial))
  exact .call (.map (.located (.map ((found.left_nil (.no (fails_nameChar stops))).mono
    fun _ _ _ => trivial))))

/-- A statement without a name is refused. -/
theorem leads_badBuffer : Leads (built (on .badBuffer)) fun _ b _ => ∃ e, b = .error e := by
  have refused : Leads (on .badBuffer) fun _ b _ => ∃ e, b = .error e :=
    .call (leads_stamped_any (.given fun _ _ => ⟨_, rfl⟩))
  refine .map (refused.mono ?_)
  rintro _ _ - ⟨e, rfl⟩
  exact ⟨e, rfl⟩

/-- What statements are read as after those about buffers. -/
theorem leads_others : Leads
    (always (on .assignment)
      <|> built (on .ifStatement)
      <|> built (on .forStatement)
      <|> built (on .eachStatement)
      <|> built (on .whileStatement)
      <|> built (on .media)
      <|> built (on .supports)
      <|> always (on .importStatement)
      <|> always (on .extend)
      <|> always (on .inclusion)
      <|> built (on .mixinDefinition)
      <|> built (on .functionDefinition)
      <|> always (on .returnStatement)
      <|> always (on .debug)
      <|> always (on .warn)
      <|> built (on .directive)
      <|> always (on .declaration)
      <|> built (on .rule))
    fun _ b _ => ∀ n, b = .ok (some n) → Ordinary n :=
  .alt (leads_always (leads_ordinary .assignment)) <|
    .alt (leads_built (leads_ordinary .ifStatement)) <|
    .alt (leads_built (leads_ordinary .forStatement)) <|
    .alt (leads_built (leads_ordinary .eachStatement)) <|
    .alt (leads_built (leads_ordinary .whileStatement)) <|
    .alt (leads_built (leads_ordinary .media)) <|
    .alt (leads_built (leads_ordinary .supports)) <|
    .alt (leads_always (leads_ordinary .importStatement)) <|
    .alt (leads_always (leads_ordinary .extend)) <|
    .alt (leads_always (leads_ordinary .inclusion)) <|
    .alt (leads_built (leads_ordinary .mixinDefinition)) <|
    .alt (leads_built (leads_ordinary .functionDefinition)) <|
    .alt (leads_always (leads_ordinary .returnStatement)) <|
    .alt (leads_always (leads_ordinary .debug)) <|
    .alt (leads_always (leads_ordinary .warn)) <|
    .alt (leads_built (leads_ordinary .directive)) <|
    .alt (leads_always (leads_ordinary .declaration)) (leads_built (leads_ordinary .rule))

/-- How a statement is read with respect to buffers. -/
inductive Handled (c : Cursor) (b : Built (Option Node)) : Prop where
  | buffer {b' : Built Node} {d : Cursor} (read : Gives (on .buffer) c (.ok b' d))
    (value : b = b'.map some)
  | flush {b' : Built Node} {d : Cursor} (read : Gives (on .flush) c (.ok b' d))
    (value : b = b'.map some)
  | refused {d : Diagnostic} (value : b = .error d)
  | other (apart : ∀ word ∈ bufferWords, ¬ AtKeyword word c.rest)
    (ordinary : ∀ n, b = .ok (some n) → Ordinary n)

/-- **A statement with a keyword for buffers is read by the rule for it**, or refused. -/
theorem leads_handled : Leads (on .statement) fun c b _ => Handled c b := by
  have none : Leads ((fun _ => .ok none) <$> on .empty : Peg Rule (Built (Option Node)))
      fun _ b _ => ∀ n, b = .ok (some n) → Ordinary n := .map fun _ _ _ _ _ e => nomatch e
  have whole {p : Peg Rule (Built Node)} : Leads (built p) fun c b d =>
      ∃ b', Gives p c (.ok b' d) ∧ b = b'.map some := .map fun c b' d read => ⟨b', read, rfl⟩
  refine .call (.map fun c bs d h => ?_)
  obtain ⟨e, h, -⟩ := Leads.seq (fun c b d h => h) .later c bs d h
  -- the first two rules do not match an at-sign, and the fifth one matches both keywords, so that
  -- a statement which comes to the others starts with neither
  rcases h.alt_cases with empty | ⟨-, h⟩
  · exact .other (fun word hw => not_atKeyword_of_gives (by decide) empty hw) (none _ _ _ empty)
  rcases h.alt_cases with comment | ⟨-, h⟩
  · refine .other (fun word hw => not_atKeyword_of_gives (by decide) comment hw) ?_
    exact leads_always (leads_ordinary .comment) _ _ _ comment
  rcases h.alt_cases with buffer | ⟨-, h⟩
  · obtain ⟨b', read, value⟩ := whole _ _ _ buffer
    exact .buffer read value
  rcases h.alt_cases with flush | ⟨-, h⟩
  · obtain ⟨b', read, value⟩ := whole _ _ _ flush
    exact .flush read value
  rcases h.alt_cases with nameless | ⟨missing, h⟩
  · obtain ⟨e, value⟩ := leads_badBuffer _ _ _ nameless
    exact .refused value
  · refine .other (fun word hw atWord => ?_) (leads_others _ _ _ h)
    obtain ⟨rest, e, stops⟩ := atWord
    obtain ⟨b', -, read⟩ := takes_badBuffer hw stops c rfl e
    exact nomatch missing.unique (.map read)

/-- A text starts with no more than one of the keywords. -/
theorem bufferWord_unique {word word' : String} (hw : word ∈ bufferWords)
    (hw' : word' ∈ bufferWords) {rest rest' : List Char}
    (e : word.toList ++ rest = word'.toList ++ rest') : word = word' ∧ rest = rest' := by
  rcases List.mem_pair.1 hw with rfl | rfl <;> rcases List.mem_pair.1 hw' with rfl | rfl
  · exact ⟨rfl, List.append_cancel_left e⟩
  · cases e
  · cases e
  · exact ⟨rfl, List.append_cancel_left e⟩

/-- Whether a statement is a buffer or a flush only if it starts with the keyword for it. -/
def OnlyByKeyword (x : Statement) : Prop :=
  ∀ n, x.value = .ok (some n) → (n.kind = .buffer → AtKeyword "@buffer" x.start.rest) ∧
    (n.kind = .flush → AtKeyword "@flush" x.start.rest)

/-- Whether a statement is a buffer or a flush just if it starts with the keyword for it, and
then has a name, which does not start with a blank. -/
structure KeepsBuffers (x : Statement) : Prop where
  buffer : AtKeyword "@buffer" x.start.rest → ∃ info name content,
    x.value = .ok (some (.plain info (.buffer { written := name }) content)) ∧ name.IsName
  flush : AtKeyword "@flush" x.start.rest → ∃ info name,
    x.value = .ok (some (.plain info (.flush { written := name } []) [])) ∧ name.IsName
  only : OnlyByKeyword x
  /-- A longer keyword is another one. -/
  longer : ∀ word ∈ bufferWords, ∀ y rest, x.start.rest = word.toList ++ y :: rest →
    Name.isPart y = true → ∀ n, x.value = .ok (some n) → n.kind ≠ .buffer ∧ n.kind ≠ .flush

/-- The keyword `@buffer` is one of the two words. -/
theorem buffer_mem_bufferWords : "@buffer" ∈ bufferWords := by
  decide

/-- The keyword `@flush` is one of the two words. -/
theorem flush_mem_bufferWords : "@flush" ∈ bufferWords := by
  decide

/-- A text does not start with both keywords. -/
theorem not_atKeyword_both {text : List Char} (h : AtKeyword "@buffer" text) :
    ¬ AtKeyword "@flush" text := by
  rintro ⟨rest', e', -⟩
  obtain ⟨rest, e, -⟩ := h
  have same :=
    (bufferWord_unique buffer_mem_bufferWords flush_mem_bufferWords (e.symm.trans e')).1
  exact absurd same (by decide)

/-- A longer keyword is none of the two. -/
theorem not_atKeyword_of_longer {word : String} (hw : word ∈ bufferWords) {y : Char}
    {rest : List Char} (part : Name.isPart y = true) {word' : String} (hw' : word' ∈ bufferWords) :
    ¬ AtKeyword word' (word.toList ++ y :: rest) := by
  rintro ⟨rest', e, stops⟩
  obtain ⟨rfl, rfl⟩ := bufferWord_unique hw hw' e
  rw [stops_cons.1 stops] at part
  cases part

/-- Where a longer word stands in place of the keyword, the statement is an ordinary one. -/
theorem OnlyByKeyword.longer {x : Statement} (only : OnlyByKeyword x) {word : String}
    (hw : word ∈ bufferWords) {y : Char} {rest : List Char}
    (here : x.start.rest = word.toList ++ y :: rest) (part : Name.isPart y = true) {n : Node}
    (built : x.value = .ok (some n)) : Ordinary n := by
  obtain ⟨buffer, flush⟩ := only n built
  rw [here] at buffer flush
  exact ⟨fun kind => not_atKeyword_of_longer hw part buffer_mem_bufferWords (buffer kind),
    fun kind => not_atKeyword_of_longer hw part flush_mem_bufferWords (flush kind)⟩

/-- **A statement that is accepted** is read by the rule for its keyword, if it has one of the
two, and by another one otherwise. -/
theorem keepsBuffers_of_gives {x : Statement}
    (read : Gives (on .statement) x.start (.ok x.value x.stop)) {o : Option Node}
    (accepted : x.value = .ok o) : KeepsBuffers x := by
  cases leads_handled _ _ _ read with
  | buffer read value =>
    obtain ⟨n, rfl, rfl⟩ := map_some_eq_ok.1 (value.symm.trans accepted)
    obtain ⟨atWord, made⟩ := leads_buffer _ _ _ read
    obtain ⟨info, name, content, rfl, isName⟩ := made n rfl
    have only : OnlyByKeyword x := by
      intro m built
      cases accepted.symm.trans built
      exact ⟨fun _ => atWord, nofun⟩
    exact ⟨fun _ => ⟨info, name, content, accepted, isName⟩,
      fun other => absurd other (not_atKeyword_both atWord), only,
      fun _ hw _ _ here part _ built => only.longer hw here part built⟩
  | flush read value =>
    obtain ⟨n, rfl, rfl⟩ := map_some_eq_ok.1 (value.symm.trans accepted)
    obtain ⟨atWord, made⟩ := leads_flush _ _ _ read
    obtain ⟨info, name, rfl, isName⟩ := made n rfl
    have only : OnlyByKeyword x := by
      intro m built
      cases accepted.symm.trans built
      exact ⟨nofun, fun _ => atWord⟩
    exact ⟨fun other => absurd atWord (not_atKeyword_both other),
      fun _ => ⟨info, name, accepted, isName⟩, only,
      fun _ hw _ _ here part _ built => only.longer hw here part built⟩
  | refused value => cases value.symm.trans accepted
  | other apart ordinary =>
    exact ⟨fun h => absurd h (apart _ buffer_mem_bufferWords),
      fun h => absurd h (apart _ flush_mem_bufferWords),
      fun n built => ⟨fun kind => absurd kind (ordinary n built).1,
        fun kind => absurd kind (ordinary n built).2⟩,
      fun _ _ _ _ _ _ n built => ordinary n built⟩

end Grammar

namespace Node

mutual

/-- A node that has no body has nothing in it, if nothing in the tree has been evaluated. -/
theorem childless_of_fresh {n : Node} (h : n.fresh true) :
    ∀ m ∈ n.nodes, m.kind = .flush → m.children = [] := by
  match n with
  | .plain i head cs =>
    simp only [fresh, Bool.and_eq_true] at h
    refine List.forall_mem_cons.2 ⟨fun kind => ?_, childless_of_freshAll h.2⟩
    refine Head.nil_of_suits h.1.2 ?_
    cases head with
    | flush => rfl
    | _ => cases kind
  | .cond i t cs o =>
    simp only [fresh, Bool.and_eq_true] at h
    exact List.forall_mem_cons.2 ⟨nofun, List.forall_mem_append.2
      ⟨childless_of_freshAll h.1.2, childless_of_freshOption h.2⟩⟩

/-- A flush has no children in nodes that no evaluation has touched. -/
theorem childless_of_freshAll {ns : List Node} (h : freshAll true ns) :
    ∀ m ∈ nodesAll ns, m.kind = .flush → m.children = [] := by
  match ns with
  | [] => exact nofun
  | n :: ns =>
    rw [freshAll, Bool.and_eq_true] at h
    exact List.forall_mem_append.2 ⟨childless_of_fresh h.1, childless_of_freshAll h.2⟩

/-- A flush has no children in the clauses after such a node. -/
theorem childless_of_freshOption {o : Option Node} (h : freshOption true o) :
    ∀ m ∈ nodesOption o, m.kind = .flush → m.children = [] := by
  match o with
  | none => exact nofun
  | some n => exact childless_of_fresh (n := n) h

end

end Node

open Grammar

/-- **Buffers are read as nothing else.**  The statements of a text that is accepted build the
nodes of its tree, in order, and none of them is refused; each of them is a buffer or a flush just
if it starts with the keyword for it, as a whole word, and then has a name; and no flush has
anything in it. -/
theorem Document.keepsBuffers_of_parse {file text : String} {tree : Node}
    (h : Document.parse file text = .ok tree) :
    Builds tree.inside (Document.statements file text) ∧
      (∀ x ∈ Document.statements file text, KeepsBuffers x) ∧
      ∀ n ∈ tree.nodes, n.kind = .flush → n.children = [] := by
  have builds := Document.builds_of_parse h
  refine ⟨builds, fun x hx => ?_, ?_⟩
  · obtain ⟨o, accepted⟩ := builds.accepted hx
    exact keepsBuffers_of_gives (Document.gives_of_mem_statements hx) accepted
  · obtain ⟨cs, rfl, bare⟩ := Document.fits_of_parse closed_bare trivial h
    cases bare with
    | ok fresh =>
      exact List.forall_mem_cons.2 ⟨nofun, Node.childless_of_freshAll (Node.freshAll_iff.2 fresh)⟩

/-- A buffer with a rule and a flush in it, and two at-rules with longer keywords. -/
theorem Document.keepsBuffers_of_parse_nested :
    let text := "@buffer a b \x7b c \x7b d: e \x7d @flush f#\x7b1\x7d; \x7d @buffers g; @flush-all;"
    ∃ tree, Document.parse "a.scss" text = .ok tree ∧
      Builds tree.inside (Document.statements "a.scss" text) ∧
      (∀ x ∈ Document.statements "a.scss" text, KeepsBuffers x) ∧
      ∀ n ∈ tree.nodes, n.kind = .flush → n.children = [] := by
  intro text
  have accepted : (Document.parse "a.scss" text).toOption.isSome := by decide +kernel
  cases read : Document.parse "a.scss" text with
  | ok tree => exact ⟨tree, rfl, Document.keepsBuffers_of_parse read⟩
  | error d =>
    rw [read] at accepted
    cases accepted

end Stylesheet
