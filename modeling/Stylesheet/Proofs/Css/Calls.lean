/-
# What the calls of an emitter write

An emitter is called for one line, declaration or brace after the other.  A run of calls that
closes each block that it opens, and no other (`Css.Nested`), is the run of exactly one list of
items (`Css.nested_iff`, `Css.callsAll_inj`).

In compressed output the emitter does not know yet, when it writes a declaration, whether a
semicolon comes after it, and keeps that in mind for the next call.  `Css.compactAll` says it
without looking back: a declaration has its semicolon unless it is the last item of a block.
`Css.linesAll` are the lines of expanded output.  What has been written at the end of a run is
just that, and so is the CSS text of a document (`Css.renderChildren_eq`).
-/

import Stylesheet.Css.Emitter

namespace Stylesheet
namespace Css

/-- A call of an emitter. -/
inductive Call where
  | line (text : String)
  | blank
  | declaration (text : String)
  | openBlock (header : String)
  | closeBlock
  /-- A look at the text between two calls, for which an open declaration is delimited. -/
  | settle

namespace Emitter

/-- The emitter after a call. -/
def call (e : Emitter) : Call → Emitter
  | .line text => e.line text
  | .blank => e.blank
  | .declaration text => e.declaration text
  | .openBlock header => e.openBlock header
  | .closeBlock => e.closeBlock
  | .settle => e.settle

/-- The emitter after some calls. -/
def run (e : Emitter) (calls : List Call) : Emitter :=
  calls.foldl call e

/-- The text at the end, with a declaration that is open delimited. -/
def value (e : Emitter) : String :=
  e.settle.text

end Emitter

/-! ### Runs of calls and items -/

mutual

/-- The calls for an item. -/
def Item.calls : Item → List Call
  | .text line => [.line line]
  | .declaration line => [.declaration line]
  | .block header inner => .openBlock header :: (callsAll inner ++ [.closeBlock])
  | .blank => [.blank]
  | .seam => [.settle]

/-- The calls for some items. -/
def callsAll : List Item → List Call
  | [] => []
  | i :: is => i.calls ++ callsAll is

end

/-- How many blocks are open after some calls when `depth` have been open before them, if each
block that is closed has been open. -/
def openAfter : (depth : Nat) → List Call → Option Nat
  | depth, [] => some depth
  | depth, .openBlock _ :: calls => openAfter (depth + 1) calls
  | 0, .closeBlock :: _ => none
  | depth + 1, .closeBlock :: calls => openAfter depth calls
  | depth, _ :: calls => openAfter depth calls

/-- Whether each block that is opened is closed, and no other. -/
def Nested (calls : List Call) : Prop :=
  openAfter 0 calls = some 0

mutual

/-- After the calls of an item as many blocks are open as before. -/
theorem openAfter_calls (i : Item) (depth : Nat) (rest : List Call) :
    openAfter depth (i.calls ++ rest) = openAfter depth rest := by
  match i with
  | .text _ | .declaration _ | .blank | .seam => rfl
  | .block header inner =>
    rw [Item.calls, List.cons_append, openAfter, List.append_assoc, openAfter_callsAll inner]
    rfl

/-- After the calls of some items as many blocks are open as before. -/
theorem openAfter_callsAll (is : List Item) (depth : Nat) (rest : List Call) :
    openAfter depth (callsAll is ++ rest) = openAfter depth rest := by
  match is with
  | [] => rfl
  | i :: is => rw [callsAll, List.append_assoc, openAfter_calls i, openAfter_callsAll is]

end

/-- Calls that close `n` blocks which they do not open, and are the calls for items else. -/
inductive Closes : Nat → List Call → Prop where
  | items (is : List Item) : Closes 0 (callsAll is)
  | close (is : List Item) {n : Nat} {rest : List Call} (after : Closes n rest) :
    Closes (n + 1) (callsAll is ++ .closeBlock :: rest)

/-- The calls of an item may come before those that close some blocks. -/
theorem Closes.item {n : Nat} {calls : List Call} (i : Item) (h : Closes n calls) :
    Closes n (i.calls ++ calls) := by
  cases h with
  | items is => exact .items (i :: is)
  | close is after =>
    rw [← List.append_assoc]
    exact .close (i :: is) after

/-- A block is opened before calls that close it. -/
theorem Closes.openBlock {n : Nat} {calls : List Call} (header : String)
    (h : Closes (n + 1) calls) : Closes n (.openBlock header :: calls) := by
  cases h with
  | close is after => simpa [Item.calls] using after.item (.block header is)

/-- Calls that leave no block open close those that were. -/
theorem closes_of_openAfter {n : Nat} {calls : List Call} (h : openAfter n calls = some 0) :
    Closes n calls := by
  induction calls generalizing n with
  | nil =>
    cases h
    exact .items []
  | cons call calls ih =>
    cases call with
    | line text => exact (ih h).item (.text text)
    | blank => exact (ih h).item .blank
    | declaration text => exact (ih h).item (.declaration text)
    | settle => exact (ih h).item .seam
    | openBlock header => exact (ih h).openBlock header
    | closeBlock =>
      cases n with
      | zero => cases h
      | succ n => exact .close [] (ih h)

/-- **A run is well nested just if it is the calls for some items.** -/
theorem nested_iff {calls : List Call} : Nested calls ↔ ∃ is, callsAll is = calls := by
  constructor
  · intro nested
    cases closes_of_openAfter nested with
    | items is => exact ⟨is, rfl⟩
  · rintro ⟨is, rfl⟩
    have closed := openAfter_callsAll is 0 []
    rwa [List.append_nil] at closed

/-- What comes after some items: nothing, or the end of the block that they are in. -/
def EndsItems (rest : List Call) : Prop :=
  ∀ call ∈ rest.head?, call = .closeBlock

/-- The calls for some items tell the items, and what comes after them. -/
theorem callsAll_append_inj {is js : List Item} {rest rest' : List Call}
    (ends : EndsItems rest) (ends' : EndsItems rest')
    (same : callsAll is ++ rest = callsAll js ++ rest') : is = js ∧ rest = rest' := by
  match is, js with
  | [], [] => exact ⟨rfl, same⟩
  | [], j :: js =>
    cases j <;> simp [callsAll, Item.calls] at same <;> simp [EndsItems, same] at ends
  | i :: is, [] =>
    cases i <;> simp [callsAll, Item.calls] at same <;> simp [EndsItems, ← same] at ends'
  | .block header inner :: is, .block header' inner' :: js =>
    simp only [callsAll, Item.calls, List.cons_append, List.append_assoc, List.nil_append,
      List.cons.injEq, Call.openBlock.injEq] at same
    obtain ⟨rfl, inside⟩ := same
    have close (calls : List Call) : EndsItems (.closeBlock :: calls) := by simp [EndsItems]
    obtain ⟨rfl, after⟩ := callsAll_append_inj (close _) (close _) inside
    obtain ⟨rfl, rfl⟩ := callsAll_append_inj ends ends' (List.cons.inj after).2
    exact ⟨rfl, rfl⟩
  | .text _ :: is, j :: js | .declaration _ :: is, j :: js | .blank :: is, j :: js
  | .seam :: is, j :: js =>
    cases j <;> simp [callsAll, Item.calls] at same
    all_goals
      try obtain ⟨rfl, same⟩ := same
      obtain ⟨rfl, rfl⟩ := callsAll_append_inj ends ends' same
      exact ⟨rfl, rfl⟩
  | .block _ _ :: _, .text _ :: _ | .block _ _ :: _, .declaration _ :: _
  | .block _ _ :: _, .blank :: _ | .block _ _ :: _, .seam :: _ =>
    simp [callsAll, Item.calls] at same

/-- **Items are told apart by their calls**. -/
theorem callsAll_inj {is js : List Item} : callsAll is = callsAll js ↔ is = js := by
  refine ⟨fun same => ?_, congrArg callsAll⟩
  have none : EndsItems [] := nofun
  exact (callsAll_append_inj none none (by simpa using same)).1

namespace Emitter

/-- Calls are run one after the other. -/
theorem run_append (e : Emitter) (calls others : List Call) :
    e.run (calls ++ others) = (e.run calls).run others :=
  List.foldl_append

mutual

/-- The calls of an item write what it writes. -/
theorem run_calls (e : Emitter) (i : Item) : e.run i.calls = e.item i := by
  match i with
  | .text _ | .declaration _ | .blank | .seam => rfl
  | .block header inner =>
    have body : e.run (Item.block header inner).calls =
        ((e.openBlock header).run (callsAll inner)).closeBlock := by
      rw [Item.calls, ← List.singleton_append, run_append, run_append]
      rfl
    rw [body, run_callsAll _ inner, item]

/-- The calls of some items write what they write. -/
theorem run_callsAll (e : Emitter) (is : List Item) : e.run (callsAll is) = e.items is := by
  match is with
  | [] => rfl
  | i :: is => rw [callsAll, run_append, run_calls e i, run_callsAll _ is, items]

end

end Emitter

/-! ### The text of items -/

/-- Whether an item has a text of its own, or keeps what is on its two sides apart: a blank line
does not. -/
def Item.counts : Item → Bool
  | .blank => false
  | _ => true

mutual

/-- The compressed text of an item, which may be the last one of a block. -/
def Item.compact (last : Bool) : Item → String
  | .text line => line
  | .declaration line => if last then line else line ++ ";"
  | .block header inner => header ++ "\x7b" ++ compactAll true inner ++ "\x7d"
  | .blank | .seam => ""

/-- The compressed text of some items: each item but the last one of a block has another after
it that counts, or the end of the text. -/
def compactAll (inBlock : Bool) : List Item → String
  | [] => ""
  | i :: is => i.compact (inBlock && !is.any Item.counts) ++ compactAll inBlock is

end

mutual

/-- The expanded lines of an item that is in `depth` blocks. -/
def Item.lines (indent : String) (depth : Nat) : Item → List String
  | .text line => [String.join (List.replicate depth indent) ++ line]
  | .declaration line => [String.join (List.replicate depth indent) ++ (line ++ ";")]
  | .block header inner =>
    [String.join (List.replicate depth indent) ++ (header ++ " \x7b")] ++
      linesAll indent (depth + 1) inner ++
      [String.join (List.replicate depth indent) ++ "\x7d"]
  | .blank => [""]
  | .seam => []

/-- The expanded lines of some items. -/
def linesAll (indent : String) (depth : Nat) : List Item → List String
  | [] => []
  | i :: is => i.lines indent depth ++ linesAll indent depth is

end

/-- The text that has some lines. -/
def textOfLines (lines : List String) : String :=
  String.join (lines.map (· ++ "\n"))

/-- The text of two lists of lines, one after the other. -/
@[simp]
theorem textOfLines_append (lines others : List String) :
    textOfLines (lines ++ others) = textOfLines lines ++ textOfLines others := by
  rw [textOfLines, List.map_append, String.join_append]
  rfl

namespace Emitter

/-! ### Compressed output -/

/-- What is written in compressed output from one emitter to another: `inner` if a block ends
after it, and `outer` if it does not.  An open declaration is delimited before what counts. -/
structure Packs (counts : Bool) (inner outer : String) (before after : Emitter) : Prop where
  compressed : after.compressed
  text : after.text = (if counts then before.value else before.text) ++ inner
  value : after.value = before.value ++ outer

/-- An emitter with no semicolon to come has its text. -/
theorem value_eq {e : Emitter} (settled : e.pending = false) : e.value = e.text := by
  rw [value, settle, settled, if_neg Bool.false_ne_true]

/-- An emitter with a semicolon to come has it at its end. -/
theorem value_eq_write {e : Emitter} (pending : e.pending) : e.value = e.text ++ ";" := by
  rw [value, settle, if_pos pending, write]

/-- No semicolon is to come after settling. -/
@[simp]
theorem pending_settle (e : Emitter) : e.settle.pending = false := by
  rw [settle]
  split
  case isTrue => rfl
  case isFalse settled => exact Bool.eq_false_iff.2 settled

/-- Settling leaves the style. -/
@[simp]
theorem compressed_settle (e : Emitter) : e.settle.compressed = e.compressed := by
  rw [settle]
  split <;> rfl

/-- A text that delimits an open declaration. -/
theorem packs_write {e : Emitter} (compressed : e.compressed) (s : String) :
    Packs true s s e (e.settle.write s) where
  compressed := (compressed_settle e).trans compressed
  text := rfl
  value := value_eq (pending_settle e)

/-- A declaration leaves its semicolon to come. -/
theorem packs_declaration {e : Emitter} (compressed : e.compressed) (s : String) :
    Packs true s (s ++ ";") e (e.declaration s) := by
  have text : (if e.pending then e.write ";" else e).text = e.value := by
    rw [value, settle]
    split <;> rfl
  have written : (e.declaration s).text = e.value ++ s := by
    rw [declaration, if_pos compressed, ← text]
    rfl
  have pending : (e.declaration s).pending := by rw [declaration, if_pos compressed]
  refine ⟨?_, written, ?_⟩
  · rw [declaration, if_pos compressed, ← compressed]
    split <;> rfl
  · rw [value_eq_write pending, written, String.append_assoc]

/-- A block, if its items are packed. -/
theorem packs_block {e after : Emitter} {counts : Bool} {inner outer : String}
    (compressed : e.compressed) (header : String)
    (items : Packs counts inner outer (e.openBlock header) after) :
    Packs true (header ++ "\x7b" ++ inner ++ "\x7d") (header ++ "\x7b" ++ inner ++ "\x7d") e
      after.closeBlock := by
  have opened : (e.openBlock header).text = e.value ++ (header ++ "\x7b") := by
    rw [openBlock, if_pos compressed]
    rfl
  have settled : (e.openBlock header).pending = false := by
    rw [openBlock, if_pos compressed]
    exact pending_settle e
  have closed : after.closeBlock =
      { after with depth := after.depth - 1, pending := false }.write "\x7d" := by
    rw [closeBlock, line, if_pos items.compressed]
    rfl
  have text : after.closeBlock.text = e.value ++ (header ++ "\x7b" ++ inner ++ "\x7d") := by
    have inside : after.text = e.value ++ (header ++ "\x7b") ++ inner := by
      rw [items.text, value_eq settled, ite_self, opened]
    rw [closed, write, inside]
    simp only [String.append_assoc]
  refine ⟨?_, text, ?_⟩
  · rw [closed]
    exact items.compressed
  · rw [← text, closed]
    exact value_eq rfl

mutual

/-- An item is compact, with a semicolon to come where it counts as one. -/
theorem packs_item {e : Emitter} (compressed : e.compressed) (i : Item) :
    Packs i.counts (i.compact true) (i.compact false) e (e.item i) := by
  match i with
  | .text s =>
    rw [item, line, if_pos compressed]
    exact packs_write compressed s
  | .declaration s => exact packs_declaration compressed s
  | .block header inner =>
    have opened : (e.openBlock header).compressed := by
      rw [openBlock, if_pos compressed]
      exact (compressed_settle e).trans compressed
    exact packs_block compressed header (packs_items opened inner)
  | .blank =>
    rw [item, blank, if_pos compressed]
    exact ⟨compressed, String.append_empty.symm, String.append_empty.symm⟩
  | .seam =>
    have written := packs_write compressed ""
    rwa [write, String.append_empty] at written

/-- **What compressed output adds for some items.**  The invariant has both what is written so
far and what the text would be if it ended here: the first is what a block that ends has. -/
theorem packs_items {e : Emitter} (compressed : e.compressed) (is : List Item) :
    Packs (is.any Item.counts) (compactAll true is) (compactAll false is) e (e.items is) := by
  match is with
  | [] => exact ⟨compressed, String.append_empty.symm, String.append_empty.symm⟩
  | i :: is =>
    have first := packs_item compressed i
    have others := packs_items first.compressed is
    refine ⟨others.compressed, ?_, ?_⟩
    · rw [items, others.text, first.value, first.text, compactAll, List.any_cons]
      cases is.any Item.counts <;> simp [String.append_assoc]
    · rw [items, others.value, first.value, compactAll, String.append_assoc, Bool.false_and]

end

/-! ### Expanded output -/

/-- More lines are written after the others. -/
theorem write_textOfLines_append (e : Emitter) (lines others : List String) :
    e.write (textOfLines (lines ++ others)) =
      (e.write (textOfLines lines)).write (textOfLines others) := by
  rw [textOfLines_append, write, write, write, String.append_assoc]

/-- A line of expanded output. -/
theorem line_eq_write {e : Emitter} (expanded : e.compressed = false) (s : String) :
    e.line s = e.write (textOfLines [String.join (List.replicate e.depth e.indent) ++ s]) := by
  simp [line, expanded, margin, textOfLines, String.join]

/-- Writing nothing changes nothing. -/
theorem write_empty (e : Emitter) : e.write "" = e :=
  congrArg (Emitter.mk _ _ · _ _) String.append_empty

/-- A block, if its items are written line by line. -/
theorem block_eq_write {e : Emitter} (expanded : e.compressed = false)
    (settled : e.pending = false) (header : String) {inner : List Item} {lines : List String}
    (items : ∀ t, ({ e.write t with depth := e.depth + 1 }).items inner =
      { e.write t with depth := e.depth + 1 }.write (textOfLines lines)) :
    e.item (.block header inner) =
      ((e.line (header ++ " \x7b")).write (textOfLines lines)).line "\x7d" := by
  have opened : e.openBlock header =
      { e.write (e.margin ++ (header ++ " \x7b") ++ "\n") with depth := e.depth + 1 } := by
    simp [openBlock, line, expanded, write]
  rw [item, opened, items]
  obtain ⟨indent, compressed, text, depth, pending⟩ := e
  cases expanded
  cases settled
  rfl

mutual

/-- An item is written line by line in the expanded style. -/
theorem item_eq_write {e : Emitter} (expanded : e.compressed = false)
    (settled : e.pending = false) (i : Item) :
    e.item i = e.write (textOfLines (i.lines e.indent e.depth)) := by
  match i with
  | .text s => exact line_eq_write expanded s
  | .declaration s =>
    rw [item, declaration, if_neg (by simp [expanded])]
    exact line_eq_write expanded (s ++ ";")
  | .block header inner =>
    have inside (t : String) : ({ e.write t with depth := e.depth + 1 }).items inner =
        { e.write t with depth := e.depth + 1 }.write
          (textOfLines (linesAll e.indent (e.depth + 1) inner)) :=
      items_eq_write (e := { e.write t with depth := e.depth + 1 }) expanded settled inner
    rw [block_eq_write expanded settled header inside, line_eq_write expanded,
      line_eq_write (e := (e.write _).write _) expanded, Item.lines, write_textOfLines_append,
      write_textOfLines_append]
    rfl
  | .blank =>
    rw [item, blank, if_neg (by simp [expanded])]
    rfl
  | .seam =>
    rw [item, settle, settled, if_neg Bool.false_ne_true]
    exact (write_empty e).symm

/-- **What expanded output adds for some items**: no declaration is ever open there. -/
theorem items_eq_write {e : Emitter} (expanded : e.compressed = false)
    (settled : e.pending = false) (is : List Item) :
    e.items is = e.write (textOfLines (linesAll e.indent e.depth is)) := by
  match is with
  | [] => exact (write_empty e).symm
  | i :: is =>
    rw [items, item_eq_write expanded settled i, linesAll, write_textOfLines_append]
    exact items_eq_write (e := e.write _) expanded settled is

end

end Emitter

/-! ### The text at the end of a run -/

/-- The compressed text of some items. -/
theorem value_compressed (indent : String) (is : List Item) :
    (Emitter.items { indent, compressed := true } is).value = compactAll false is :=
  (Emitter.packs_items rfl is).value.trans String.empty_append

/-- The expanded text of some items. -/
theorem value_expanded (indent : String) (is : List Item) :
    (Emitter.items { indent } is).value = textOfLines (linesAll indent 0 is) := by
  rw [Emitter.items_eq_write rfl rfl is]
  exact String.empty_append

/-- **What a run of calls writes.**  A run that is well nested is the run of one list of items and
no other, and the text at its end is the compressed text of these items, or their expanded lines,
each with its line end. -/
theorem value_run {calls : List Call} (nested : Nested calls) (indent : String) :
    ∃ is, (∀ js, callsAll js = calls ↔ js = is) ∧
      (Emitter.run { indent, compressed := true } calls).value = compactAll false is ∧
      (Emitter.run { indent } calls).value = textOfLines (linesAll indent 0 is) := by
  obtain ⟨is, rfl⟩ := nested_iff.1 nested
  refine ⟨is, fun js => callsAll_inj, ?_, ?_⟩
  · rw [Emitter.run_callsAll, value_compressed]
  · rw [Emitter.run_callsAll, value_expanded]

example : compactAll false [.declaration "@import x", .block "a" [.declaration "b:c",
    .declaration "d:e", .blank]] = "@import x;a\x7bb:c;d:e\x7d" := by
  rfl

/-- A run with two rules, in the first one two declarations with a blank line after them. -/
theorem value_run_two_rules :
    let calls : List Call := [.declaration "@import x", .openBlock "a", .declaration "b: c",
      .declaration "d: e", .blank, .closeBlock, .line "/*! f */", .openBlock "g", .closeBlock]
    Nested calls ∧ ∃ is, (∀ js, callsAll js = calls ↔ js = is) ∧
      (Emitter.run { indent := "  ", compressed := true } calls).value = compactAll false is ∧
      (Emitter.run { indent := "  " } calls).value = textOfLines (linesAll "  " 0 is) := by
  intro calls
  have nested : Nested calls := by rfl
  exact ⟨nested, value_run nested "  "⟩

/-- **The CSS text of a document** is that of its items. -/
theorem renderChildren_eq (o : Options) (children : List Node) :
    renderChildren o children =
      endLine (match o.style with
        | .compressed => compactAll false (itemsOfDocument .compressed children)
        | .expanded => textOfLines (linesAll o.indent 0 (itemsOfDocument .expanded children))) := by
  rw [renderChildren]
  cases o.style with
  | expanded => exact congrArg endLine (value_expanded o.indent _)
  | compressed => exact congrArg endLine (value_compressed o.indent _)

end Css
end Stylesheet
