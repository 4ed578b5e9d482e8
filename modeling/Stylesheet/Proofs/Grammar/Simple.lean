/-
# Simple statements

The simple statements are rules, queries, buffers and definitions of mixins without
parameters, with bodies of simple statements, and declarations, flushes and inclusions whose
names and values are words.  `Simple.Spells` says how they are written in the brace syntax,
with any space between them, and `Simple.draft` is the node that each of them is.  Whatever
spells some simple statements reads as their nodes, up to the lines that those are on
(`Simple.takes_of_spells`, `Document.parse_of_written`).
-/

import Stylesheet.Proofs.Grammar.Parts
import Stylesheet.Proofs.Node.Unplaced

namespace Stylesheet

open Grammar

/-- What a simple statement with a body is. -/
inductive Simple.Head where
  /-- `selectors { … }`. -/
  | rule (selectors : List Char)
  /-- `@media query { … }`. -/
  | media (query : List Char)
  /-- `@buffer name { … }`. -/
  | buffer (name : List Char)
  /-- `@mixin name { … }`. -/
  | mixin (name : List Char)

/-- A simple statement. -/
inductive Simple where
  /-- `name: value;`. -/
  | declaration (name value : List Char)
  /-- `@flush name;`. -/
  | flush (name : List Char)
  /-- `@include name;`. -/
  | inclusion (name : List Char)
  /-- A statement with a body. -/
  | block (head : Simple.Head) (body : List Simple)

namespace Simple

/-- The text of a name without holes. -/
def plainText (text : List Char) : Template :=
  [.text (String.ofList text)]

/-- The name of a buffer as it is read. -/
def bufferNamed (name : List Char) : BufferName :=
  { written := plainText name, resolved := none }

namespace Head

/-- What is written before the body, if the names in it are words. -/
inductive Spells : Head → List Char → Prop where
  | rule {s : List Char} (hs : IsSelectorText s) : Spells (.rule s) s
  | media {q : List Char} (hq : IsQueryText q) : Spells (.media q) ("@media".toList ++ [' '] ++ q)
  | buffer {w : List Char} (hw : IsWord w) :
    Spells (.buffer w) ("@buffer".toList ++ [' '] ++ w ++ [' '])
  | mixin {w : List Char} (hw : IsWord w) :
    Spells (.mixin w) ("@mixin".toList ++ [' '] ++ w ++ [' '])

/-- What the node is. -/
def draft : Head → Stylesheet.Head
  | rule s => .rule (plainText s) none
  | media q => .media (plainText q) none
  | buffer w => .buffer (bufferNamed w)
  | mixin w => .mixin (String.ofList w) []

end Head

mutual

/-- The node that a statement is, but for the line. -/
def draft (file : String) : Simple → Node
  | declaration name value =>
    .plain { file := some file } (.declaration (plainText name)
      (some (Expr.ofWord (String.ofList value))) none none) []
  | flush name => .plain { file := some file } (.flush (bufferNamed name) []) []
  | inclusion name => .plain { file := some file } (.inclusion (String.ofList name) [] []) []
  | block head body => .plain { file := some file } head.draft (draftAll file body)

/-- The nodes that some statements are, but for the lines. -/
def draftAll (file : String) : List Simple → List Node
  | [] => []
  | s :: ss => s.draft file :: draftAll file ss

end

/-- A text of nothing but space. -/
def IsGap (g : List Char) : Prop :=
  ∀ x ∈ g, Text.isSpace x = true

/-- There may be no space at all. -/
theorem isGap_nil : IsGap [] :=
  List.forall_mem_nil _

/-- A blank is space. -/
theorem isGap_blank : IsGap [' '] :=
  List.forall_mem_singleton.2 (by decide)

/-- A line break is space. -/
theorem isGap_break : IsGap ['\n'] :=
  List.forall_mem_singleton.2 (by decide)

/-- Space may go on after space. -/
theorem IsGap.append {g g' : List Char} (hg : IsGap g) (hg' : IsGap g') : IsGap (g ++ g') :=
  List.forall_mem_append.2 ⟨hg, hg'⟩

/-- How some statements are written one after the other, with space after each.  In a block
the last declaration may go without its semicolon. -/
inductive Spells : (inBlock : Bool) → List Simple → List Char → Prop where
  | nil {inBlock : Bool} : Spells inBlock [] []
  | declaration {inBlock : Bool} {n v g g' : List Char} {ss : List Simple} {ts : List Char}
    (hn : IsPropertyText n) (hv : IsWord v) (hg : IsGap g) (hg' : IsGap g')
    (more : Spells inBlock ss ts) :
    Spells inBlock (.declaration n v :: ss) (n ++ [':'] ++ g ++ (v ++ [';']) ++ g' ++ ts)
  | last {n v g : List Char} (hn : IsPropertyText n) (hv : IsWord v) (hg : IsGap g) :
    Spells true [.declaration n v] (n ++ [':'] ++ g ++ v)
  | flush {inBlock : Bool} {w g : List Char} {ss : List Simple} {ts : List Char}
    (hw : IsWord w) (hg : IsGap g) (more : Spells inBlock ss ts) :
    Spells inBlock (.flush w :: ss) ("@flush".toList ++ [' '] ++ w ++ [';'] ++ g ++ ts)
  | inclusion {inBlock : Bool} {w g : List Char} {ss : List Simple} {ts : List Char}
    (hw : IsWord w) (hg : IsGap g) (more : Spells inBlock ss ts) :
    Spells inBlock (.inclusion w :: ss) ("@include".toList ++ [' '] ++ w ++ [';'] ++ g ++ ts)
  | bodiless {inBlock : Bool} {w g : List Char} {ss : List Simple} {ts : List Char}
    (hw : IsWord w) (hg : IsGap g) (more : Spells inBlock ss ts) :
    Spells inBlock (.block (.buffer w) [] :: ss)
      ("@buffer".toList ++ [' '] ++ w ++ [';'] ++ g ++ ts)
  | block {inBlock : Bool} {head : Head} {body ss : List Simple} {hs g bs g' ts : List Char}
    (hh : head.Spells hs) (hg : IsGap g) (inner : Spells true body bs) (hg' : IsGap g')
    (more : Spells inBlock ss ts) :
    Spells inBlock (.block head body :: ss) (hs ++ (['\x7b'] ++ g ++ bs ++ ['\x7d']) ++ g' ++ ts)

/-- Whether a statement is refused or built is settled: it is this one, but for the lines. -/
def Builds (file : String) (s : Simple) (b : Built (Option Node)) : Prop :=
  ∃ n, b = .ok (some n) ∧ n.unplaced = s.draft file

/-- So it is with a body. -/
def BuildsAll (file : String) (ss : List Simple) (b : Built (List Node)) : Prop :=
  ∃ ns, b = .ok ns ∧ Node.unplacedAll ns = draftAll file ss

variable {file : String} {ts us rest : List Char} {α β : Type}

/-- What is built at a place, whichever line it is on. -/
theorem takes_stamped {p : Peg Rule (Span → α)} {f : Span → α} {fits : α → Prop}
    (h : Takes file p ts rest (· = f)) (hf : ∀ line : Nat, fits (f { file, line })) :
    Takes file (stamped p) ts rest fits :=
  .map (.located (h.mono fun _ e line => e ▸ hf line))

/-- What is built from a body. -/
theorem takes_around {g : Peg Rule (β → Span → α)} {q : Peg Rule β} {f : β → Span → α}
    {fits : β → Prop} (hg : Takes file g ts (us ++ rest) (· = f)) (hq : Takes file q us rest fits) :
    Takes file (stamped (g <*> q)) (ts ++ us) rest fun a =>
      ∃ b, fits b ∧ ∃ line : Nat, a = f b { file, line } := by
  have both := hg.seq hq
  refine .map (.located (.map (both.mono ?_)))
  rintro ⟨f', b⟩ ⟨rfl, hb⟩ line
  exact ⟨b, hb, line, rfl⟩

/-- A node with a body. -/
theorem takes_branch {g : Peg Rule (β → Span → Built Node)} {q : Peg Rule β}
    {f : β → Span → Built Node} {head : Stylesheet.Head} {ss : List Simple}
    (hg : Takes file g ts (us ++ rest) (· = f))
    (hq : Takes file q us rest fun b => ∃ body, f b = branch head body ∧ BuildsAll file ss body) :
    Takes file (stamped (g <*> q)) (ts ++ us) rest fun b =>
      ∃ n, b = .ok n ∧ n.unplaced = .plain { file := some file } head (draftAll file ss) := by
  refine (takes_around hg hq).mono ?_
  rintro _ ⟨b, ⟨body, e, ns, rfl, hns⟩, line, rfl⟩
  exact ⟨.plain (infoAt { file, line }) head ns, congrFun e _, by
    simp [Node.unplaced, infoAt, hns]⟩

/-- A block is read if its statements are, after the space before them. -/
theorem takes_block {g bs : List Char} {fits : Built (List Node) → Prop} (hg : IsGap g)
    (stops : Stops Text.isSpace (bs ++ ['\x7d'] ++ rest))
    (h : Takes file (.star (on .statement)) bs (['\x7d'] ++ rest) fun found =>
      fits (statements found)) :
    Takes file (on .block) (['\x7b'] ++ g ++ bs ++ ['\x7d']) rest fits := by
  have opened : Takes file (.lit "\x7b" *> on .gap) (['\x7b'] ++ g) (bs ++ (['\x7d'] ++ rest))
      (· = ()) := (Takes.lit "\x7b" _).right (takes_gap hg (by simpa using stops))
  exact .call (.map ((opened.right h).left (.lit "\x7d" rest)))

/-- A statement that builds a node, with the space after it. -/
theorem takes_statement {p : Peg Rule (Built (Option Node))} {s : Simple} {g : List Char}
    (hg : IsGap g) (stops : Stops Text.isSpace rest)
    (h : Takes file p ts (g ++ rest) (Builds file s)) :
    Takes file (p <* on .gap) (ts ++ g) rest (Builds file s) :=
  h.left (takes_gap hg stops)

/-- A rule that always builds its node builds a statement. -/
theorem takes_always {r : Rule Node} {s : Simple}
    (h : Takes file (on r) ts rest fun n => n.unplaced = s.draft file) :
    Takes file (always (on r)) ts rest (Builds file s) :=
  .map (h.mono fun n hn => ⟨n, rfl, hn⟩)

/-- As `takes_always`, for a rule that may refuse its node. -/
theorem takes_built {r : Rule (Built Node)} {s : Simple}
    (h : Takes file (on r) ts rest fun b => ∃ n, b = .ok n ∧ n.unplaced = s.draft file) :
    Takes file (built (on r)) ts rest (Builds file s) := by
  refine .map (h.mono ?_)
  rintro _ ⟨n, rfl, hn⟩
  exact ⟨n, rfl, hn⟩

/-- A rule is its selector and its block. -/
theorem takes_rule_statement {s bs : List Char} {body : List Simple} (hs : IsSelectorText s)
    (h : Takes file (on .block) ('\x7b' :: bs) rest (BuildsAll file body)) :
    Takes file (on .rule) (s ++ '\x7b' :: bs) rest fun b =>
      ∃ n, b = .ok n ∧ n.unplaced = (block (.rule s) body).draft file :=
  .call (takes_branch (takes_selector hs).map_eq (h.mono fun b hb => ⟨b, rfl, hb⟩))

/-- A media query is its words and its block. -/
theorem takes_media {q bs : List Char} {body : List Simple} (hq : IsQueryText q)
    (h : Takes file (on .block) ('\x7b' :: bs) rest (BuildsAll file body)) :
    Takes file (on .media) ("@media".toList ++ [' '] ++ q ++ '\x7b' :: bs) rest fun b =>
      ∃ n, b = .ok n ∧ n.unplaced = (block (.media q) body).draft file :=
  .call (takes_branch (takes_at "@media" hq (by decide) (takes_atValue hq)).map_eq
    (h.mono fun b hb => ⟨b, rfl, hb⟩))

/-- A mixin is its name and its block. -/
theorem takes_mixin {w bs : List Char} {body : List Simple} (hw : IsWord w)
    (h : Takes file (on .block) ('\x7b' :: bs) rest (BuildsAll file body)) :
    Takes file (on .mixinDefinition) ("@mixin".toList ++ [' '] ++ w ++ [' '] ++ '\x7b' :: bs) rest
      fun b => ∃ n, b = .ok n ∧ n.unplaced = (block (.mixin w) body).draft file := by
  have name : Takes file (on .name) w ([' '] ++ ('\x7b' :: bs ++ rest)) (· = String.ofList w) :=
    takes_name hw (stops_cons.2 (by decide))
  have blank : Takes file (on .gap) [' '] ('\x7b' :: bs ++ rest) (· = ()) :=
    takes_gap (by decide) (stops_cons.2 (by decide))
  have named := (takes_at "@mixin" hw.madeOf (by decide) name).left blank
  have noParams : Takes file (.opt (on .params) <* on .gap) [] ('\x7b' :: bs ++ rest) (· = none) :=
    .left_nil (.opt_none (.of_forecast ['\x7b'] 200 (by decide) _))
      (takes_gap (by simp) (stops_cons.2 (by decide)))
  exact .call (takes_branch (named.map_eq.app_nil noParams) (h.mono fun b hb => ⟨b, rfl, hb⟩))

/-- A buffer is its name and its block, which may be left out. -/
theorem takes_buffer {w us : List Char} {body : List Simple} (hw : IsWord w) (gap : List Char)
    (hgap : gap = [' '] ∧ (∃ bs, us = '\x7b' :: bs) ∨ gap = [] ∧ ∃ bs, us = ';' :: bs)
    (h : Takes file (on .bufferBody) us rest fun b =>
      BuildsAll file body (b.getD (.ok []))) :
    Takes file (on .buffer) ("@buffer".toList ++ [' '] ++ w ++ (gap ++ us)) rest fun b =>
      ∃ n, b = .ok n ∧ n.unplaced = (block (.buffer w) body).draft file := by
  have ends : EndsName (gap ++ us ++ rest) := by
    rcases hgap with ⟨rfl, bs, rfl⟩ | ⟨rfl, bs, rfl⟩
    · exact .inr ⟨bs ++ rest, rfl⟩
    · exact .inl ⟨bs ++ rest, rfl⟩
  have blank : Takes file (on .gap) gap (us ++ rest) (· = ()) := by
    rcases hgap with ⟨rfl, bs, rfl⟩ | ⟨rfl, bs, rfl⟩
    · exact takes_gap (by decide) (stops_cons.2 (by decide))
    · exact takes_gap (by decide) (stops_cons.2 (by decide))
  have name : Takes file (on .bufferName) w (gap ++ us ++ rest) (· = plainText w) :=
    takes_bufferName hw ends
  exact .call (takes_branch (takes_at "@buffer" hw.madeOf (by decide) name).map_eq
    ((blank.right h).mono fun b hb => ⟨_, rfl, hb⟩))

/-- A semicolon stands in place of a block. -/
theorem takes_noBlock : Takes file optionalBlock [';'] rest (· = none) :=
  .alt_else (.of_forecast [';'] 200 (by decide) rest) (takes_stop rest).map_eq

/-- There is no space where the text goes on at once. -/
theorem takes_no_gap (stops : Stops Text.isSpace rest) : Takes file (on .gap) [] rest (· = ()) :=
  takes_gap (by simp) stops

/-- A flush is its name. -/
theorem takes_flush {w : List Char} (hw : IsWord w) :
    Takes file (on .flush) ("@flush".toList ++ [' '] ++ w ++ [';']) rest fun b =>
      ∃ n, b = .ok n ∧ n.unplaced = (flush w).draft file := by
  have name : Takes file (on .bufferName) w ([';'] ++ rest) (· = plainText w) :=
    takes_bufferName hw (.inl ⟨rest, rfl⟩)
  have noGap : Takes file (on .gap) [] ([';'] ++ rest) (· = ()) :=
    takes_no_gap (stops_cons.2 (by decide))
  have body : Takes file (on .gap *> on .flushBody) [';'] rest (· = none) :=
    noGap.right (.call takes_noBlock)
  exact .call (takes_stamped ((takes_at "@flush" hw.madeOf (by decide) name).map_eq.app_eq body)
    fun line => ⟨_, rfl, rfl⟩)

/-- An inclusion is its name. -/
theorem takes_inclusion {w : List Char} (hw : IsWord w) :
    Takes file (on .inclusion) ("@include".toList ++ [' '] ++ w ++ [';']) rest fun n =>
      n.unplaced = (inclusion w).draft file := by
  have name : Takes file (on .name) w ([';'] ++ rest) (· = String.ofList w) :=
    takes_name hw (stops_cons.2 (by decide))
  have named := (takes_at "@include" hw.madeOf (by decide) name).left_nil
    (takes_no_gap (stops_cons.2 (by decide)))
  have noArgs : Takes file (.opt (on .callArgs) <* on .gap) [] ([';'] ++ rest) (· = none) :=
    .left_nil (.opt_none (.of_forecast [';'] 200 (by decide) rest))
      (takes_no_gap (stops_cons.2 (by decide)))
  have ended : Takes file (.opt (on .callArgs) <* on .gap <* on .stop) [';'] rest (· = none) :=
    noArgs.left (takes_stop rest)
  exact .call (takes_stamped (named.map_eq.app_eq ended) fun line => rfl)

/-- The end of a declaration: a semicolon, or nothing before the end of the block. -/
def EndsDeclaration (e rest : List Char) : Prop :=
  e = [';'] ∨ e = [] ∧ ∃ tail, rest = '\x7d' :: tail

/-- What ends a value comes next after a declaration's value. -/
theorem EndsDeclaration.exists_ender {e : List Char} (h : EndsDeclaration e rest) :
    ∃ x tail, e ++ rest = x :: tail ∧ x ∈ enders := by
  rcases h with rfl | ⟨rfl, tail, rfl⟩
  · exact ⟨';', rest, rfl, by decide⟩
  · exact ⟨'\x7d', tail, rfl, by decide⟩

/-- The end of a declaration is read by the rule for it. -/
theorem EndsDeclaration.takes_stop {e : List Char} (h : EndsDeclaration e rest) :
    Takes file (on .stop) e rest (· = ()) := by
  rcases h with rfl | ⟨rfl, tail, rfl⟩
  · exact Grammar.takes_stop rest
  · exact takes_stop_of_brace tail

/-- Whether a text before the end of a value reads as an expression. -/
structure IsValueText (v : List Char) (value : Expr) : Prop where
  start : ∃ x cs, v = x :: cs ∧ Text.isSpace x = false ∧ x ≠ ':'
  takes : ∀ {file : String} {x : Char} {rest : List Char}, x ∈ enders →
    Takes file (on .commaList) v (x :: rest) (· = value)

/-- A word is a value. -/
theorem isValueText_word {v : List Char} (hv : IsWord v) :
    IsValueText v (Expr.ofWord (String.ofList v)) where
  start := by
    obtain ⟨x, cs, rfl, hx, -⟩ := hv.madeOf.exists_cons
    have other : ∀ x ∈ letters, Text.isSpace x = false ∧ x ≠ ':' := by decide
    exact ⟨x, cs, rfl, other x hx⟩
  takes := takes_value hv

/-- The node of a declaration. -/
def declared (n : List Char) (value : Expr) (place : Span) : Node :=
  leaf (.declaration (plainText n) (some value) none none) place

/-- **A declaration is its name and its value.** -/
theorem takes_declared {n v g e : List Char} {value : Expr} (hn : IsPropertyText n)
    (hv : IsValueText v value) (hg : IsGap g) (he : EndsDeclaration e rest) :
    Takes file (on .declaration) (n ++ [':'] ++ g ++ (v ++ e)) rest fun m =>
      ∃ line : Nat, m = declared n value { file, line } := by
  obtain ⟨x, tail, ends, hx⟩ := he.exists_ender
  obtain ⟨y, cs, first, noSpace, noColon⟩ := hv.start
  have notSpace : ∀ x ∈ enders, Text.isSpace x = false := by decide
  have ended : Stops Text.isSpace (e ++ rest) := ends ▸ stops_cons.2 (notSpace x hx)
  have read : Takes file (on .commaList <* on .gap <* on .stop) (v ++ e) rest (· = value) :=
    .left (.left_nil (ends ▸ hv.takes hx) (takes_no_gap ended)) he.takes_stop
  have name : Takes file (on .propertyName <* on .gap) n ([':'] ++ (g ++ (v ++ e ++ rest)))
      (· = plainText n) :=
    (takes_propertyName hn (by decide)).left_nil (takes_no_gap (stops_cons.2 (by decide)))
  have notColon : Fails (.lit ":") (g ++ (v ++ e ++ rest)) := by
    refine .lit fun starts => ?_
    cases g with
    | nil =>
      rw [first] at starts
      exact noColon (List.cons_prefix_cons.1 starts).1.symm
    | cons y g =>
      have space : Text.isSpace y = true := hg y (by simp)
      obtain ⟨rfl, -⟩ := List.cons_prefix_cons.1 starts
      exact absurd space (by decide)
  have gap : Takes file (on .gap) g (v ++ e ++ rest) (· = ()) :=
    takes_gap hg (by rw [first]; exact stops_cons.2 noSpace)
  have named := ((name.left (.lit ":" _)).left_nil (.no notColon)).left gap
  exact .call (takes_stamped (named.map_eq.app_eq read) fun line => ⟨line, rfl⟩)

/-- What ends the statements: the end of the block, or of the text. -/
def EndsStatements (inBlock : Bool) (rest : List Char) : Prop :=
  if inBlock then ∃ tail, rest = '\x7d' :: tail else rest = []

/-- What ends the statements is no space. -/
theorem EndsStatements.stops {inBlock : Bool} (h : EndsStatements inBlock rest) :
    Stops Text.isSpace rest := by
  cases inBlock with
  | true =>
    obtain ⟨tail, rfl⟩ := h
    exact stops_cons.2 (by decide)
  | false =>
    obtain rfl : rest = [] := h
    rfl

/-- No statement is left. -/
theorem EndsStatements.takes_none {inBlock : Bool} (h : EndsStatements inBlock rest) :
    Takes file (.star (on .statement)) [] rest (· = []) := by
  cases inBlock with
  | true =>
    obtain ⟨tail, rfl⟩ := h
    exact .star_end (.of_forecast ['\x7d'] 200 (by decide) tail)
  | false =>
    obtain rfl : rest = [] := h
    exact .star_eof

/-- No statement is read where the statements end. -/
theorem EndsStatements.takes_nil {inBlock : Bool} (h : EndsStatements inBlock rest) :
    Takes file (.star (on .statement)) [] rest fun found =>
      BuildsAll file [] (statements found) := by
  refine h.takes_none.mono ?_
  rintro _ rfl
  exact ⟨[], rfl, rfl⟩

/-- A declaration is none of the alternatives before it. -/
theorem takes_declared_statement {n v g e g' : List Char} {value : Expr} (hn : IsPropertyText n)
    (hv : IsValueText v value) (hg : IsGap g) (hg' : IsGap g')
    (he : EndsDeclaration e (g' ++ rest)) (stops : Stops Text.isSpace rest) :
    Takes file (on .statement) (n ++ [':'] ++ g ++ (v ++ e) ++ g') rest fun b =>
      ∃ line : Nat, b = .ok (some (declared n value { file, line })) := by
  refine .call (Takes.left ?_ (takes_gap hg' stops))
  obtain ⟨x, cs, rfl, hx, hcs⟩ := hn.exists_cons
  refine takes_choice_of_mem 21 hx (by decide +kernel) rfl (.alt (.map ?_))
  refine (takes_declared (n := x :: cs) ⟨hx, hcs⟩ hv hg he).mono ?_
  rintro _ ⟨line, rfl⟩
  exact ⟨line, rfl⟩

/-- A declaration is read as a statement, with the space after it. -/
theorem takes_declaration_statement {n v g e g' : List Char} (hn : IsPropertyText n)
    (hv : IsWord v) (hg : IsGap g) (hg' : IsGap g') (he : EndsDeclaration e (g' ++ rest))
    (stops : Stops Text.isSpace rest) :
    Takes file (on .statement) (n ++ [':'] ++ g ++ (v ++ e) ++ g') rest
      (Builds file (.declaration n v)) := by
  refine (takes_declared_statement hn (isValueText_word hv) hg hg' he stops).mono ?_
  rintro _ ⟨line, rfl⟩
  exact ⟨_, rfl, rfl⟩

/-- A rule is none of the alternatives before it. -/
theorem takes_rule_choice {s bs g : List Char} {fits : Built Node → Prop} (hs : IsSelectorText s)
    (hg : IsGap g) (stops : Stops Text.isSpace rest)
    (h : Takes file (on .rule) (s ++ '\x7b' :: bs) (g ++ rest) fits) :
    Takes file (on .statement) (s ++ '\x7b' :: bs ++ g) rest fun b =>
      ∃ b', fits b' ∧ b = b'.map some := by
  refine .call (Takes.left ?_ (takes_gap hg stops))
  obtain ⟨x, cs, rfl, hx, hcs⟩ := hs.exists_cons
  refine takes_choice_of_mem 21 hx (by decide +kernel) rfl ?_
  refine .alt_else (.map ?_) (.map (h.mono fun b hb => ⟨b, hb, rfl⟩))
  rw [List.append_assoc]
  exact fails_declaration ⟨hx, hcs⟩

/-- A statement with a body is none of the alternatives before it. -/
theorem takes_block_statement {head : Head} {body : List Simple} {hs bs g : List Char}
    (hh : head.Spells hs) (hg : IsGap g) (stops : Stops Text.isSpace rest)
    (h : Takes file (on .block) ('\x7b' :: bs) (g ++ rest) (BuildsAll file body)) :
    Takes file (on .statement) (hs ++ '\x7b' :: bs ++ g) rest (Builds file (.block head body)) := by
  cases hh with
  | rule hs =>
    refine (takes_rule_choice hs hg stops (takes_rule_statement hs h)).mono ?_
    rintro _ ⟨_, ⟨n, rfl, hn⟩, rfl⟩
    exact ⟨n, rfl, hn⟩
  | media hq =>
    refine .call (takes_statement hg stops ?_)
    exact takes_choice 10 "@media".toList (by decide) (by simp)
      (.alt (takes_built (takes_media hq h)))
  | buffer hw =>
    refine .call (takes_statement hg stops ?_)
    refine takes_choice 2 "@buffer".toList (by decide) (by simp) (.alt (takes_built ?_))
    have inner : Takes file (on .bufferBody) ('\x7b' :: bs) (g ++ rest) fun b =>
        BuildsAll file body (b.getD (.ok [])) := .call (.alt (.map h))
    simpa using takes_buffer hw [' '] (.inl ⟨rfl, bs, rfl⟩) inner
  | mixin hw =>
    refine .call (takes_statement hg stops ?_)
    exact takes_choice 15 "@mixin".toList (by decide) (by simp)
      (.alt (takes_built (takes_mixin hw h)))

/-- No space comes before a statement. -/
theorem Spells.stops {inBlock : Bool} {ss : List Simple} {ts : List Char} (h : Spells inBlock ss ts)
    (ends : Stops Text.isSpace rest) : Stops Text.isSpace (ts ++ rest) := by
  cases h with
  | nil => exact ends
  | declaration hn | last hn =>
    simp only [List.append_assoc]
    exact MadeOf.stops hn (by decide)
  | flush | inclusion | bodiless => exact stops_cons.2 (by decide)
  | block hh =>
    cases hh with
    | rule hs =>
      simp only [List.append_assoc]
      exact MadeOf.stops hs (by decide)
    | media | buffer | mixin => exact stops_cons.2 (by decide)

/-- One more node is built before the others. -/
theorem statements_cons {n : Node} {ns : List Node} {found : List (Built (Option Node))}
    (h : statements found = .ok ns) : statements (.ok (some n) :: found) = .ok (n :: ns) := by
  unfold statements at h ⊢
  rw [List.mapM_cons]
  cases e : found.mapM id with
  | error d =>
    rw [e] at h
    cases h
  | ok nodes =>
    rw [e] at h
    cases h
    rfl

/-- One statement after another. -/
theorem takes_cons {s : Simple} {ss : List Simple} (some : ts ≠ [])
    (one : Takes file (on .statement) ts (us ++ rest) (Builds file s))
    (more : Takes file (.star (on .statement)) us rest fun found =>
      BuildsAll file ss (statements found)) :
    Takes file (.star (on .statement)) (ts ++ us) rest fun found =>
      BuildsAll file (s :: ss) (statements found) := by
  refine (Takes.star_more some one more).mono ?_
  rintro _ ⟨_, found, rfl, ⟨n, rfl, hn⟩, ns, e, hns⟩
  exact ⟨n :: ns, statements_cons e, by rw [Node.unplacedAll, draftAll, hn, hns]⟩

/-- **What spells some simple statements reads as their nodes.** -/
theorem takes_of_spells {inBlock : Bool} {ss : List Simple} {ts : List Char}
    (h : Spells inBlock ss ts) (ends : EndsStatements inBlock rest) :
    Takes file (.star (on .statement)) ts rest fun found =>
      BuildsAll file ss (statements found) := by
  induction h generalizing rest with
  | nil => exact ends.takes_nil
  | declaration hn hv hg hg' more ih =>
    exact takes_cons (by simp)
      (takes_declaration_statement hn hv hg hg' (.inl rfl) (more.stops ends.stops)) (ih ends)
  | @last n v g hn hv hg =>
    have one : Takes file (on .statement) (n ++ [':'] ++ g ++ (v ++ []) ++ []) rest
        (Builds file (.declaration n v)) :=
      takes_declaration_statement hn hv hg isGap_nil (.inr ⟨rfl, ends⟩) ends.stops
    simpa only [List.append_nil] using takes_cons (by simp) one ends.takes_nil
  | flush hw hg more ih =>
    refine takes_cons (by simp) (.call (takes_statement hg (more.stops ends.stops) ?_)) (ih ends)
    exact takes_choice 3 "@flush".toList (by decide) (by simp)
      (.alt (takes_built (takes_flush hw)))
  | inclusion hw hg more ih =>
    refine takes_cons (by simp) (.call (takes_statement hg (more.stops ends.stops) ?_)) (ih ends)
    exact takes_choice 14 "@include".toList (by decide) (by simp)
      (.alt (takes_always (takes_inclusion hw)))
  | @bodiless _ w g ss ts hw hg more ih =>
    refine takes_cons (by simp) (.call (takes_statement hg (more.stops ends.stops) ?_)) (ih ends)
    refine takes_choice 2 "@buffer".toList (by decide) (by simp) (.alt (takes_built ?_))
    have none : Takes file (on .bufferBody) [';'] (g ++ (ts ++ rest)) fun b =>
        BuildsAll file [] (b.getD (.ok [])) :=
      .call (takes_noBlock.mono fun b e => e ▸ ⟨[], rfl, rfl⟩)
    exact takes_buffer hw [] (.inr ⟨rfl, [], rfl⟩) none
  | @block _ head body ss hs g bs g' ts hh hg inner hg' more ih ih' =>
    have closed : EndsStatements true (['\x7d'] ++ (g' ++ (ts ++ rest))) := ⟨_, rfl⟩
    have braces : Takes file (on .block) ('\x7b' :: (g ++ bs ++ ['\x7d'])) (g' ++ (ts ++ rest))
        (BuildsAll file body) := by
      have h := takes_block hg (by simpa using inner.stops closed.stops) (ih closed)
      simpa using h
    have one := takes_block_statement hh hg' (more.stops ends.stops) braces
    have whole := takes_cons (by simp) one (ih' ends)
    simpa using whole

/-- How some statements are written with space before them, too. -/
def Written (inBlock : Bool) (ss : List Simple) (text : List Char) : Prop :=
  ∃ g ts, text = g ++ ts ∧ IsGap g ∧ Spells inBlock ss ts

namespace Written

variable {inBlock : Bool} {ss body : List Simple} {head : Head} {n v w g g' hs bs text : List Char}

/-- Space alone is no statement. -/
theorem nil (hg : IsGap g) : Written inBlock [] g :=
  ⟨g, [], (List.append_nil g).symm, hg, .nil⟩

/-- There may be more space in front. -/
theorem gap (hg : IsGap g) (h : Written inBlock ss text) : Written inBlock ss (g ++ text) := by
  obtain ⟨g', ts, rfl, hg', more⟩ := h
  exact ⟨g ++ g', ts, (List.append_assoc g g' ts).symm, hg.append hg', more⟩

/-- What is spelled from the start on. -/
theorem of_spells (h : Spells inBlock ss text) : Written inBlock ss text :=
  ⟨[], text, rfl, isGap_nil, h⟩

/-- A declaration that a semicolon ends, before others. -/
theorem declaration (hn : IsPropertyText n) (hv : IsWord v) (hg : IsGap g)
    (more : Written inBlock ss text) :
    Written inBlock (.declaration n v :: ss) (n ++ [':'] ++ g ++ (v ++ [';']) ++ text) := by
  obtain ⟨g', ts, rfl, hg', more⟩ := more
  exact List.append_assoc _ g' ts ▸ of_spells (.declaration hn hv hg hg' more)

/-- The last declaration of a block needs no semicolon. -/
theorem last (hn : IsPropertyText n) (hv : IsWord v) (hg : IsGap g) :
    Written true [.declaration n v] (n ++ [':'] ++ g ++ v) :=
  of_spells (.last hn hv hg)

/-- A flush, before others. -/
theorem flush (hw : IsWord w) (more : Written inBlock ss text) :
    Written inBlock (.flush w :: ss) ("@flush".toList ++ [' '] ++ w ++ [';'] ++ text) := by
  obtain ⟨g, ts, rfl, hg, more⟩ := more
  exact List.append_assoc _ g ts ▸ of_spells (.flush hw hg more)

/-- An inclusion, before others. -/
theorem inclusion (hw : IsWord w) (more : Written inBlock ss text) :
    Written inBlock (.inclusion w :: ss) ("@include".toList ++ [' '] ++ w ++ [';'] ++ text) := by
  obtain ⟨g, ts, rfl, hg, more⟩ := more
  exact List.append_assoc _ g ts ▸ of_spells (.inclusion hw hg more)

/-- A buffer without a block, before others. -/
theorem bodiless (hw : IsWord w) (more : Written inBlock ss text) :
    Written inBlock (.block (.buffer w) [] :: ss)
      ("@buffer".toList ++ [' '] ++ w ++ [';'] ++ text) := by
  obtain ⟨g, ts, rfl, hg, more⟩ := more
  exact List.append_assoc _ g ts ▸ of_spells (.bodiless hw hg more)

/-- A statement with a block, before others. -/
theorem block (hh : head.Spells hs) (inner : Written true body bs)
    (more : Written inBlock ss text) :
    Written inBlock (.block head body :: ss) (hs ++ (['\x7b'] ++ bs ++ ['\x7d']) ++ text) := by
  obtain ⟨g, ts, rfl, hg, inner⟩ := inner
  obtain ⟨g', us, rfl, hg', more⟩ := more
  have h := of_spells (.block hh hg inner hg' more)
  simpa using h

end Written
end Simple

/-- The statements of a text are its style sheet. -/
theorem Document.parse_of_takes {file text : String} {g ts : List Char}
    {fits : Built (List Node) → Prop} (e : text.toList = g ++ ts) (hg : Simple.IsGap g)
    (stops : Stops Text.isSpace (ts ++ []))
    (h : Takes file (.star (on .statement)) ts [] fun found => fits (statements found)) :
    ∃ nodes, fits nodes ∧ ∀ children, nodes = .ok children →
      Document.parse file text = .ok (.plain {} .root children) := by
  have whole : Takes file (on .sheet) (g ++ ts) [] fits :=
    .call (.map ((takes_gap hg stops).right h))
  obtain ⟨nodes, hnodes, -, n, run⟩ :=
    whole (.start file text.toList) rfl (by simp [Cursor.start, e])
  refine ⟨nodes, hnodes, ?_⟩
  rintro children rfl
  refine Document.parse_of_run run ?_
  rw [Cursor.rest_skip, Cursor.start, e, List.drop_length]

/-- **How some simple statements are written is the style sheet of their nodes**, but for the
lines. -/
theorem Document.parse_of_written (file : String) {text : String} {ss : List Simple}
    (h : Simple.Written false ss text.toList) :
    ∃ children, Document.parse file text = .ok (.plain {} .root children) ∧
      Node.unplacedAll children = Simple.draftAll file ss := by
  obtain ⟨g, ts, e, hg, spells⟩ := h
  obtain ⟨_, ⟨ns, rfl, hns⟩, parsed⟩ := Document.parse_of_takes e hg (spells.stops (stops_nil _))
    (Simple.takes_of_spells spells rfl)
  exact ⟨ns, parsed ns rfl, hns⟩

end Stylesheet
