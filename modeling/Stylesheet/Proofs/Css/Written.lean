/-
# How a plain style sheet is written

The text that an emitter writes of some items may be how some simple statements are written
(`Css.Prints`).  The items of the nodes of a plain style sheet are written so, in both styles
(`Css.prints_rule`, `Css.prints_media`): what compressed output leaves out is never needed.
-/

import Stylesheet.Css.Emitter
import Stylesheet.Proofs.Css.Plain

namespace Stylesheet

open Css

/-- The simple statements that a node with this head is written as; `inner` are those of its
content. -/
def Head.statements (style : Style) (inner : List Simple) : Head → List Simple
  | root => inner
  | rule _ resolved => [.block (.rule (selectorText style (resolved.getD []))) inner]
  | media _ resolved => [.block (.media (queryText style (textOf resolved))) inner]
  | declaration _ _ name value => [.declaration (textOf name).toList (textOf value).toList]
  | _ => []

namespace Node

mutual

/-- The simple statements that a node is written as; a node of another kind is none. -/
def statements (style : Style) : Node → List Simple
  | plain _ h cs => h.statements style (statementsAll style cs)
  | cond .. => []

/-- The simple statements that some nodes are written as. -/
def statementsAll (style : Style) : List Node → List Simple
  | [] => []
  | n :: ns => n.statements style ++ statementsAll style ns

end

end Node

namespace Css

open Simple (IsGap Written isGap_nil isGap_blank isGap_break)

variable {style : Style} {e : Emitter}

namespace Emitter

/-- Items are written one after the other. -/
theorem items_append (e : Emitter) (is js : List Item) :
    e.items (is ++ js) = (e.items is).items js := by
  induction is generalizing e with
  | nil => rfl
  | cons i is ih => exact ih (e.item i)

/-- Two texts are written as one. -/
theorem write_write (e : Emitter) (s t : String) : (e.write s).write t = e.write (s ++ t) := by
  rw [write, write, write, String.append_assoc]

/-- Whether an emitter writes in a style, with space for its indentation, and no declaration
is open. -/
structure Ready (style : Style) (e : Emitter) : Prop where
  gap : IsGap e.indent.toList
  compressed : e.compressed = (style == .compressed)
  settled : e.pending = false

/-- What is written leaves an emitter ready. -/
theorem Ready.write (h : e.Ready style) (t : String) : (e.write t).Ready style :=
  ⟨h.gap, h.compressed, h.settled⟩

/-- A ready emitter has nothing to settle. -/
theorem Ready.settle (h : e.Ready style) : e.settle = e := by
  rw [Emitter.settle, h.settled, if_neg Bool.false_ne_true]

/-- The margin is space. -/
theorem Ready.margin (h : e.Ready style) : IsGap e.margin.toList := by
  rw [Emitter.margin]
  induction e.depth with
  | zero => exact isGap_nil
  | succ n ih =>
    rw [List.replicate_succ, String.join_cons, String.toList_append]
    exact h.gap.append ih

/-- What a line starts with; compressed output has no lines. -/
def lineStart (style : Style) (e : Emitter) : String :=
  match style with
  | .expanded => e.margin
  | .compressed => ""

/-- What a line ends with. -/
def lineEnd : Style → String
  | .expanded => "\n"
  | .compressed => ""

/-- What stands before a line is space. -/
theorem Ready.gap_lineStart (h : e.Ready style) : IsGap (e.lineStart style).toList := by
  cases style with
  | expanded => exact h.margin
  | compressed => exact isGap_nil

/-- What stands after a line is space. -/
theorem gap_lineEnd (style : Style) : IsGap (lineEnd style).toList := by
  cases style with
  | expanded => exact isGap_break
  | compressed => exact isGap_nil

/-- A line is written with the space of the style around it. -/
theorem Ready.line (h : e.Ready style) (s : String) :
    e.line s = e.write (e.lineStart style ++ s ++ lineEnd style) := by
  cases style with
  | expanded =>
    have known : e.compressed = false := h.compressed
    simp [Emitter.line, known, lineStart, lineEnd]
  | compressed =>
    have known : e.compressed = true := h.compressed
    simp [Emitter.line, known, lineStart, lineEnd, h.settle]

/-- What opens a block. -/
def opening (style : Style) (e : Emitter) (header : String) : String :=
  e.lineStart style ++ (header ++ String.ofList (space style) ++ "\x7b") ++ lineEnd style

/-- A block is opened with its header and a brace. -/
theorem Ready.openBlock (h : e.Ready style) (header : String) :
    e.openBlock header = { e.write (e.opening style header) with depth := e.depth + 1 } := by
  cases style with
  | expanded =>
    have known : e.compressed = false := h.compressed
    simp [Emitter.openBlock, known, h.line, opening, space, Emitter.write, String.append_assoc]
  | compressed =>
    have known : e.compressed = true := h.compressed
    simp [Emitter.openBlock, known, h.settle, opening, lineStart, lineEnd, space, Emitter.write]

/-- A block is closed with a brace. -/
theorem Ready.closeBlock (h : e.Ready style) (text : String) (open' : Bool) :
    { e with text, depth := e.depth + 1, pending := open' }.closeBlock =
      { e with text := text ++ (e.lineStart style ++ "\x7d" ++ lineEnd style) } := by
  have ready : { e with text, pending := false }.Ready style := ⟨h.gap, h.compressed, rfl⟩
  have closed := ready.line "\x7d"
  rw [Emitter.closeBlock, Nat.add_sub_cancel, closed]
  exact congrArg (Emitter.mk e.indent e.compressed _ e.depth) h.settled.symm

end Emitter

/-- Whether some items are written as some simple statements are, wherever they stand. -/
def Prints (style : Style) (inBlock : Bool) (is : List Item) (ss : List Simple) : Prop :=
  ∀ e : Emitter, e.Ready style → ∃ t, e.items is = e.write t ∧
    ∀ more rest, Written inBlock more rest → Written inBlock (ss ++ more) (t.toList ++ rest)

/-- Whether some items are written as the body of a block is, with what comes before the
brace after it. -/
def PrintsBody (style : Style) (is : List Item) (ss : List Simple) : Prop :=
  ∀ e : Emitter, e.Ready style → ∃ t open', e.items is = { e.write t with pending := open' } ∧
    ∀ g, IsGap g → (style = .expanded ∨ g = []) → Written true ss (t.toList ++ g)

variable {inBlock : Bool} {is js : List Item} {ss ts : List Simple}

namespace Prints

/-- No items print no statements. -/
theorem nil (style : Style) (inBlock : Bool) : Prints style inBlock [] [] :=
  fun e _ => ⟨"", by simp [Emitter.items, Emitter.write], fun _ _ h => h⟩

/-- Items print their statements one after the other. -/
theorem append (h : Prints style inBlock is ss) (k : Prints style inBlock js ts) :
    Prints style inBlock (is ++ js) (ss ++ ts) := by
  intro e ready
  obtain ⟨t, writes, spells⟩ := h e ready
  obtain ⟨u, writes', spells'⟩ := k (e.write t) (ready.write t)
  refine ⟨t ++ u, ?_, fun more rest written => ?_⟩
  · rw [e.items_append, writes, writes', Emitter.write_write]
  · rw [String.toList_append, List.append_assoc, List.append_assoc]
    exact spells _ _ (spells' more rest written)

/-- A blank line prints no statement. -/
theorem blank (style : Style) (inBlock : Bool) : Prints style inBlock [.blank] [] := by
  intro e _
  show ∃ t, e.blank = e.write t ∧ _
  unfold Emitter.blank
  split
  · exact ⟨"", by simp [Emitter.write], fun _ _ h => h⟩
  · exact ⟨"\n", rfl, fun _ _ h => h.gap (List.forall_mem_singleton.2 (by decide))⟩

/-- What prints statements in a block prints its body. -/
theorem body (h : Prints style true is ss) : PrintsBody style is ss := by
  intro e ready
  obtain ⟨t, writes, spells⟩ := h e ready
  refine ⟨t, e.pending, writes, fun g gap _ => ?_⟩
  simpa using spells [] g (.nil gap)

end Prints

/-- **A block is written as a block**, if its header spells what it is. -/
theorem PrintsBody.block {head : Simple.Head} {header : String}
    (spelled : head.Spells (header.toList ++ space style)) (h : PrintsBody style is ss) :
    Prints style inBlock [.block header is] [.block head ss] := by
  intro e ready
  have opens := ready.openBlock header
  obtain ⟨t, open', writes, spells⟩ := h (e.openBlock header)
    (opens ▸ ⟨ready.gap, ready.compressed, ready.settled⟩)
  refine ⟨e.opening style header ++ t ++ (e.lineStart style ++ "\x7d" ++ Emitter.lineEnd style),
    ?_, fun more rest written => ?_⟩
  · show ((e.openBlock header).items is).closeBlock = _
    rw [writes, opens]
    exact (ready.closeBlock _ open').trans (by simp [Emitter.write, String.append_assoc])
  · have start : style = .expanded ∨ (e.lineStart style).toList = [] := by
      cases style with
      | expanded => exact .inl rfl
      | compressed => exact .inr rfl
    have inner := (spells _ ready.gap_lineStart start).gap (Emitter.gap_lineEnd style)
    have whole := (Written.block spelled inner
      (written.gap (Emitter.gap_lineEnd style))).gap ready.gap_lineStart
    simpa [Emitter.opening] using whole

/-- A declaration on a line of its own. -/
theorem prints_declaration {name value : String} (hname : Joined "-" Word name)
    (hvalue : Word value) :
    Prints .expanded inBlock [.declaration (name ++ valueSeparator .expanded ++ value)]
      [.declaration name.toList value.toList] := by
  intro e ready
  have expanded : e.compressed = false := ready.compressed
  refine ⟨e.lineStart .expanded ++ (name ++ ": " ++ value ++ ";") ++ Emitter.lineEnd .expanded,
    ?_, fun more rest written => ?_⟩
  · show e.declaration _ = _
    rw [Emitter.declaration, expanded, if_neg Bool.false_ne_true, ready.line]
    rfl
  · have whole := (Written.declaration (isPropertyText hname) hvalue.isWord isGap_blank
      (written.gap (Emitter.gap_lineEnd .expanded))).gap ready.gap_lineStart
    simpa using whole

/-- A plain declaration is one item. -/
theorem itemsOf_declaration (style : Style) {n : Node} (h : n.IsPlainDeclaration) :
    ∃ name value, Joined "-" Word name ∧ Word value ∧
      itemsOf style n = [.declaration (name ++ valueSeparator style ++ value)] ∧
      n.statements style = [.declaration name.toList value.toList] := by
  obtain ⟨hname, hvalue, -⟩ := h
  exact ⟨_, _, hname, hvalue, rfl, rfl⟩

/-- Declarations that compressed output has semicolons between. -/
theorem items_declarations {ns : List Node} (some : ns ≠ [])
    (plain : ∀ n ∈ ns, n.IsPlainDeclaration) {e : Emitter} (compressed : e.compressed = true) :
    ∃ t, e.items (itemsOfAll .compressed ns) =
        { e.write ((if e.pending then ";" else "") ++ t) with pending := true } ∧
      Written true (Node.statementsAll .compressed ns) t.toList := by
  induction ns generalizing e with
  | nil => exact absurd rfl some
  | cons n ns ih =>
    obtain ⟨hn, hns⟩ := List.forall_mem_cons.1 plain
    obtain ⟨name, value, hname, hvalue, items, statements⟩ :=
      itemsOf_declaration .compressed hn
    have one : e.item (.declaration (name ++ valueSeparator .compressed ++ value)) =
        { e.write ((if e.pending then ";" else "") ++ (name ++ ":" ++ value)) with
          pending := true } := by
      show e.declaration _ = _
      rw [Emitter.declaration, compressed, if_pos rfl]
      split
      · simp [Emitter.write, valueSeparator, String.append_assoc]
      · simp [Emitter.write, valueSeparator]
    rw [itemsOfAll, items, Node.statementsAll, statements]
    by_cases last : ns = []
    · subst last
      refine ⟨name ++ ":" ++ value, one, ?_⟩
      simpa [Node.statementsAll] using Written.last (isPropertyText hname) hvalue.isWord isGap_nil
    · obtain ⟨t, writes, written⟩ := ih last hns (e := e.item
        (.declaration (name ++ valueSeparator .compressed ++ value))) (one ▸ compressed)
      refine ⟨name ++ ":" ++ value ++ ";" ++ t, ?_, ?_⟩
      · show (e.item _).items (itemsOfAll .compressed ns) = _
        rw [writes, one]
        simp [Emitter.write, String.append_assoc]
      · simpa using Written.declaration (isPropertyText hname) hvalue.isWord isGap_nil written

/-- What some nodes are written as, one after the other. -/
theorem prints_all {ns : List Node}
    (h : ∀ n ∈ ns, Prints style inBlock (itemsOf style n) (n.statements style)) :
    Prints style inBlock (itemsOfAll style ns) (Node.statementsAll style ns) := by
  induction ns with
  | nil => exact .nil style inBlock
  | cons n ns ih =>
    obtain ⟨first, others⟩ := List.forall_mem_cons.1 h
    exact first.append (ih others)

/-- The declarations of a rule. -/
theorem printsBody_declarations {ns : List Node} (some : ns ≠ [])
    (plain : ∀ n ∈ ns, n.IsPlainDeclaration) :
    PrintsBody style (itemsOfAll style ns) (Node.statementsAll style ns) := by
  cases style with
  | expanded =>
    refine (prints_all fun n hn => ?_).body
    obtain ⟨name, value, hname, hvalue, items, statements⟩ :=
      itemsOf_declaration .expanded (plain n hn)
    rw [items, statements]
    exact prints_declaration hname hvalue
  | compressed =>
    intro e ready
    obtain ⟨t, writes, written⟩ := items_declarations some plain ready.compressed
    refine ⟨t, true, ?_, fun g _ none => ?_⟩
    · rw [writes, ready.settled]
      simp
    · rw [none.resolve_left nofun, List.append_nil]
      exact written

/-- **A plain rule is written as a rule.** -/
theorem prints_rule (style : Style) (inBlock : Bool) {n : Node} (h : n.IsPlainRule) :
    Prints style inBlock (itemsOf style n) (n.statements style) := by
  obtain ⟨some, words, someContent, plain⟩ := h
  exact (printsBody_declarations someContent plain).block
    (.rule (isSelectorText style some words))

/-- **A plain query is written as a query.** -/
theorem prints_media (style : Style) (inBlock : Bool) {n : Node} (h : n.IsPlainMedia) :
    Prints style inBlock (itemsOf style n) (n.statements style) := by
  cases h with
  | @mk _ _ query _ words _ plain =>
    have rules := (prints_all fun n hn => prints_rule style true (plain n hn)).body
    have spelled := Simple.Head.Spells.media (isQueryText style words)
    have header : ("@media " ++ query).toList ++ space style =
        "@media".toList ++ [' '] ++ queryText style query := by
      rw [String.toList_append, List.append_assoc]
      rfl
    exact rules.block (header ▸ spelled)

/-- The nodes of a document, with blank lines between some of them. -/
theorem prints_separate {ns : List Node}
    (h : ∀ n ∈ ns, Prints style inBlock (itemsOf style n) (n.statements style)) :
    Prints style inBlock (separate (itemsByChild style ns)) (Node.statementsAll style ns) := by
  induction ns with
  | nil => exact .nil style inBlock
  | cons n ns ih =>
    obtain ⟨first, others⟩ := List.forall_mem_cons.1 h
    cases ns with
    | nil => simpa [itemsByChild, separate, Node.statementsAll] using first
    | cons m ns =>
      have gap : Prints style inBlock (if n.info.groupEnd then [Item.blank] else []) [] := by
        split
        · exact .blank style inBlock
        · exact .nil style inBlock
      have opened := first.append gap
      rw [List.append_nil] at opened
      exact opened.append (ih others)

/-- No blank line comes after the last node. -/
theorem separate_append (style : Style) (ns : List Node) (n : Node) : ∃ is,
    separate (itemsByChild style (ns ++ [n])) = is ++ itemsOf style n := by
  induction ns with
  | nil => exact ⟨[], rfl⟩
  | cons m ns ih =>
    obtain ⟨is, e⟩ := ih
    refine ⟨itemsOf style m ++ (if m.info.groupEnd then [Item.blank] else []) ++ is, ?_⟩
    rw [List.append_assoc, ← e]
    cases ns with
    | nil => rfl
    | cons k ns => rfl

/-- What is written ends with the brace of the block that comes last, and perhaps the line. -/
theorem text_block (e : Emitter) (header : String) (is : List Item) :
    ∃ u v, ((e.item (.block header is)).settle).text = u ++ "\x7d" ++ v ∧
      (v = "" ∨ v = "\n") := by
  show ∃ u v, (Emitter.closeBlock _).settle.text = _ ∧ _
  generalize (e.openBlock header).items is = inner
  rw [Emitter.closeBlock, Emitter.line]
  split
  · exact ⟨inner.text, "", by simp [Emitter.settle, Emitter.write], .inl rfl⟩
  · refine ⟨inner.text ++ Emitter.margin { inner with depth := inner.depth - 1 }, "\n", ?_,
      .inr rfl⟩
    simp [Emitter.settle, Emitter.write, Emitter.margin, String.append_assoc]

/-- A closing brace ends a line, with or without a break. -/
theorem endLine_brace (u : String) {v : String} (h : v = "" ∨ v = "\n") :
    endLine (u ++ "\x7d" ++ v) = u ++ "\x7d" ++ "\n" := by
  have brace : ('\x7d' == '\n') = false := rfl
  rw [← String.toList_inj, endLine, if_neg]
  · rcases h with rfl | rfl
    · simp [brace]
    · simp [brace]
  · rcases h with rfl | rfl
    · simp
    · simp

/-- A plain rule or query is written as one block. -/
theorem itemsOf_block (style : Style) {n : Node} (h : n.IsPlainRule ∨ n.IsPlainMedia) :
    ∃ header is, itemsOf style n = [.block header is] := by
  rcases h with ⟨-, -, -, -⟩ | ⟨-, -, -⟩
  · exact ⟨_, _, rfl⟩
  · exact ⟨_, _, rfl⟩

/-- **The CSS text of a plain style sheet is how its statements are written.** -/
theorem written_render {o : Options} (gap : IsGap o.indent.toList) {t : Node}
    (h : t.IsPlainSheet) : ∃ css, render? o t = some css ∧
      Written false (t.statements o.style) css.toList := by
  cases h with
  | @mk info children plain =>
    refine ⟨renderChildren o children, rfl, ?_⟩
    show Written false (Node.statementsAll o.style children) _
    have each : ∀ n ∈ children, Prints o.style false (itemsOf o.style n)
        (n.statements o.style) := fun n hn =>
      (plain n hn).elim (prints_rule o.style false) (prints_media o.style false)
    have ready : Emitter.Ready o.style
        { indent := o.indent, compressed := o.style == .compressed } := ⟨gap, rfl, rfl⟩
    obtain ⟨t, writes, spells⟩ := prints_separate each _ ready
    have text : renderChildren o children = endLine t := by
      rw [renderChildren, itemsOfDocument, writes, (ready.write t).settle]
      exact congrArg endLine String.empty_append
    have written (g : List Char) (hg : IsGap g) :
        Written false (Node.statementsAll o.style children) (t.toList ++ g) := by
      simpa using spells [] g (.nil hg)
    rw [text]
    rcases List.eq_nil_or_concat' children with rfl | ⟨ns, n, rfl⟩
    · have none : t = "" := by
        simpa [itemsByChild, separate, Emitter.items, Emitter.write] using writes
      subst none
      exact written [] isGap_nil
    · obtain ⟨header, is, block⟩ := itemsOf_block o.style (plain n (by simp))
      obtain ⟨js, last⟩ := separate_append o.style ns n
      obtain ⟨u, v, ends, hv⟩ := text_block (Emitter.items _ js) header is
      rw [last, block, Emitter.items_append] at writes
      have closed : t = u ++ "\x7d" ++ v := by
        rw [← ends]
        refine Eq.trans ?_ (congrArg (fun e => (Emitter.settle e).text) writes).symm
        rw [(ready.write t).settle]
        exact String.empty_append.symm
      rw [closed, endLine_brace u hv]
      rcases hv with rfl | rfl
      · simpa [closed] using written ['\n'] isGap_break
      · simpa [closed] using written [] isGap_nil

end Css
end Stylesheet
