/-
# Placing the lines of an outline

The statements of an outline stand on lines at their columns (`Outline.Stands`).  Each line
becomes one of the brace syntax, and the blocks that are left at a line are closed at its
start, so what closes a body stands before the statement after it or at the end of the text.
`Outline.Placed` therefore speaks of the lines together with what follows them: if that closes
the blocks that the lines leave open, the whole is the outline written with braces.
-/

import Stylesheet.Proofs.Indentation.Forms

namespace Stylesheet
namespace Outline

open Simple (IsGap isGap_nil isGap_blank isGap_break)
open Indentation

/-- On what lines an outline stands, its outermost statements at a column. -/
inductive Stands : (column : Nat) → List Outline → List Line → Prop
  | nil {c : Nat} : Stands c [] []
  | cons {c d : Nat} {o : Outline} {os : List Outline} {line : Line} {inner more : List Line}
    (column : line.column = c) (form : o.IsForm line.content) (deeper : c < d)
    (body : Stands d o.body inner) (rest : Stands c os more) :
    Stands c (o :: os) (line :: (inner ++ more))

/-- What closes some blocks: as many braces, with space around them. -/
inductive Closes : Nat → List Char → Prop
  | gap {g : List Char} (hg : IsGap g) : Closes 0 g
  | brace {n : Nat} {text g : List Char} (h : Closes n text) (hg : IsGap g) :
    Closes (n + 1) (text ++ ['\x7d'] ++ g)

/-- The text of some lines. -/
def textOf (lines : List (List Char)) : List Char :=
  lines.flatMap fun line => line ++ ['\n']

/-- The text of the first line is before that of the others. -/
theorem textOf_cons (line : List Char) (lines : List (List Char)) :
    textOf (line :: lines) = line ++ ['\n'] ++ textOf lines :=
  List.flatMap_cons

/-- The text of some lines and more is one text after the other. -/
theorem textOf_append (lines lines' : List (List Char)) :
    textOf (lines ++ lines') = textOf lines ++ textOf lines' :=
  List.flatMap_append

variable {n c d : Nat} {os : List Outline} {lines : List Line} {entry outer : List Nat}
  {text g more : List Char} {file : String}

/-! ### Space and closing braces -/

/-- There may be more space before an outline. -/
theorem Braces.gap (hg : IsGap g) (h : Braces os text) : Braces os (g ++ text) := by
  cases h with
  | nil hg' => exact .nil (hg.append hg')
  | leaf hg' leaf more => simpa using Braces.leaf (hg.append hg') leaf more
  | block hg' braces body more => simpa using Braces.block (hg.append hg') braces body more

/-- There may be more space after closing braces. -/
theorem Closes.append_gap (h : Closes n text) (hg : IsGap g) : Closes n (text ++ g) := by
  cases h with
  | gap hg' => exact .gap (hg'.append hg)
  | brace h hg' => simpa using Closes.brace h (hg'.append hg)

/-- The braces at the start of a line. -/
theorem closes_flatten (n : Nat) : Closes n (List.replicate n ['\x7d', ' ']).flatten := by
  induction n with
  | zero => exact .gap isGap_nil
  | succ n ih =>
    simpa [List.replicate_succ'] using Closes.brace ih isGap_blank

/-- The braces of the last line. -/
theorem closes_replicate (n : Nat) : Closes n (List.replicate n '\x7d') := by
  induction n with
  | zero => exact .gap isGap_nil
  | succ n ih => simpa [List.replicate_succ'] using Closes.brace ih isGap_nil

/-! ### One line -/

/-- A statement leaves the deeper blocks. -/
theorem leave_append (deeper : ∀ d ∈ entry, c < d) :
    leave c (entry ++ c :: outer) = (entry.length, c :: outer) := by
  induction entry with
  | nil => simp [leave]
  | cons d entry ih =>
    rw [List.forall_mem_cons] at deeper
    rw [List.cons_append, leave, if_pos deeper.1, ih deeper.2, List.length_cons]

/-- A statement at a column that is open closes the deeper blocks. -/
theorem place_statement {line : Line} (deeper : ∀ d ∈ entry, line.column < d)
    (rest : List Role) :
    place file false (entry ++ line.column :: outer) (.statement line :: rest) =
      (place file false (line.column :: outer) rest).map fun p =>
        (((List.replicate entry.length ['\x7d', ' ']).flatten ++
          braced line.content ((nextColumn? rest).any (line.column < ·))) :: p.1, p.2) := by
  have shallow : ¬(entry ++ line.column :: outer).headD 0 < line.column := by
    cases entry with
    | nil => simp
    | cons d entry => simpa using Nat.le_of_lt (deeper d List.mem_cons_self)
  rw [place, if_neg shallow, leave_append deeper]
  simp only [List.headD_cons, ne_eq, not_true_eq_false, if_false]
  cases nextColumn? rest <;> cases place file false (line.column :: outer) rest <;> rfl

/-- A deeper statement opens a block, as if that had been open. -/
theorem place_deeper {line : Line} (deeper : c < line.column) (rest : List Role) :
    place file false (c :: outer) (.statement line :: rest) =
      place file false (line.column :: c :: outer) (.statement line :: rest) := by
  have opened : place file false ([] ++ line.column :: c :: outer) (.statement line :: rest) = _ :=
    place_statement (by simp) rest
  rw [List.nil_append] at opened
  rw [opened, place, if_pos (by simpa using deeper)]
  cases nextColumn? rest <;> cases place file false (line.column :: c :: outer) rest <;> rfl

/-- The first statement of an outline at the left is placed as any other. -/
theorem Stands.place_first (h : Stands 0 os lines) :
    place file true [0] (lines.map .statement) = place file false [0] (lines.map .statement) := by
  cases h with
  | nil => rfl
  | cons column =>
    rw [List.map_cons, place, place, List.headD_cons, if_neg (by omega), if_neg (by omega)]

/-! ### The lines of an outline -/

/-- What follows an outline is no deeper. -/
theorem Stands.shallow_next (h : Stands c os lines) {rest : List Role}
    (next : ∀ n ∈ nextColumn? rest, n ≤ c) :
    ∀ n ∈ nextColumn? (lines.map .statement ++ rest), n ≤ c := by
  cases h with
  | nil => exact next
  | cons column =>
    intro n hn
    cases hn
    exact Nat.le_of_eq column

/-- No block is opened by what is no deeper. -/
theorem any_eq_false {next : Option Nat} (shallow : ∀ n ∈ next, n ≤ c) :
    next.any (c < ·) = false := by
  cases next with
  | none => rfl
  | some n => simpa using shallow n rfl

/-- Whether a statement opens a block is whether there is something in its body. -/
theorem Stands.any_next (h : Stands d os lines) (deeper : c < d) {rest : List Role}
    (next : ∀ n ∈ nextColumn? rest, n ≤ c) :
    (nextColumn? (lines.map .statement ++ rest)).any (c < ·) = !os.isEmpty := by
  cases h with
  | nil => exact any_eq_false next
  | cons column => simp [nextColumn?, column, deeper]

/-- The first statement of a body opens its block. -/
theorem Stands.place_deeper (h : Stands d os lines) (deeper : c < d) (some : os ≠ [])
    (rest : List Role) :
    place file false (c :: outer) (lines.map .statement ++ rest) =
      place file false (d :: c :: outer) (lines.map .statement ++ rest) := by
  cases h with
  | nil => exact absurd rfl some
  | cons column => exact column ▸ Outline.place_deeper (column ▸ deeper) _

/-- A statement with a body has braces. -/
theorem hasBraces_of_body {o : Outline} (some : o.body ≠ []) : o.hasBraces = true := by
  cases o <;> simp_all [body, hasBraces]

/-- A statement with nothing inside it and its end. -/
theorem Braces.bodiless {o : Outline} (none : o.body = []) (hg : IsGap g)
    (more : Braces os text) : Braces (o :: os) (g ++ (o.long ++ ending o.long) ++ text) := by
  rw [ending_long none]
  by_cases braces : o.hasBraces = true
  · rw [if_pos braces]
    have body : Braces o.body [] := none ▸ .nil isGap_nil
    simpa using Braces.block hg braces body more
  · rw [if_neg braces]
    simpa using Braces.leaf hg (by simpa using braces) more

/-- What becomes of the lines of an outline after some blocks inside its column: the lines
`out`, with the blocks `left` open behind them.  Together with what closes those and with what
is written after them, they are the outline written with braces, once the blocks before it
are closed. -/
structure Placed (file : String) (c : Nat) (os : List Outline) (lines : List Line)
    (entry outer : List Nat) (out : List (List Char)) (left : List Nat) : Prop where
  deeper : ∀ d ∈ left, c < d
  place (rest : List Role) (next : ∀ n ∈ nextColumn? rest, n ≤ c) :
    place file false (entry ++ c :: outer) (lines.map .statement ++ rest) =
      (place file false (left ++ c :: outer) rest).map fun p => (out ++ p.1, p.2)
  written {closing text : List Char} {after : List Outline} (closes : Closes left.length closing)
    (more : Braces after text) :
    ∃ opening whole, Closes entry.length opening ∧ Braces (os ++ after) whole ∧
      textOf out ++ (closing ++ text) = opening ++ whole

/-- No lines leave the blocks as they are. -/
theorem placed_nil (deeper : ∀ d ∈ entry, c < d) :
    Placed file c [] [] entry outer [] entry where
  deeper := deeper
  place rest _ := by
    simp only [List.map_nil, List.nil_append]
    cases place file false (entry ++ c :: outer) rest <;> rfl
  written closes more := ⟨_, _, closes, more, rfl⟩

variable {o : Outline} {line : Line} {inner after : List Line} {out out' : List (List Char)}
  {left left' : List Nat}

/-- A statement with nothing inside it is a line that closes the blocks before it. -/
theorem Placed.bodiless (rest : Placed file c os after [] outer out left)
    (standing : Stands c os after) (column : line.column = c) (form : o.IsForm line.content)
    (none : o.body = []) (deeper : ∀ d ∈ entry, c < d) :
    Placed file c (o :: os) (line :: after) entry outer
      (((List.replicate entry.length ['\x7d', ' ']).flatten ++ (o.long ++ ending o.long)) :: out)
      left where
  deeper := rest.deeper
  place more next := by
    subst column
    have last := any_eq_false (standing.shallow_next next)
    have behind := rest.place more next
    rw [List.nil_append] at behind
    rw [List.map_cons, List.cons_append, place_statement deeper, last, braced, form.longForm_eq,
      behind]
    cases Indentation.place file false (left ++ line.column :: outer) more <;> rfl
  written closes more := by
    obtain ⟨opening, whole, ⟨hg⟩, written, e⟩ := rest.written closes more
    refine ⟨_, _, closes_flatten entry.length,
      .bodiless none isGap_nil (.gap (isGap_break.append hg) written), ?_⟩
    rw [textOf_cons, List.append_assoc, e]
    simp only [List.append_assoc, List.nil_append]

/-- A statement with something inside it closes the blocks before it and opens its own; what
follows closes that and the blocks left in it. -/
theorem Placed.block (body : Placed file d o.body inner [] (c :: outer) out left)
    (rest : Placed file c os after (left ++ [d]) outer out' left')
    (standing : Stands d o.body inner) (standing' : Stands c os after)
    (column : line.column = c) (form : o.IsForm line.content) (some : o.body ≠ [])
    (inside : c < d) (deeper : ∀ d ∈ entry, c < d) :
    Placed file c (o :: os) (line :: (inner ++ after)) entry outer
      (((List.replicate entry.length ['\x7d', ' ']).flatten ++ (o.long ++ [' ', '\x7b'])) ::
        (out ++ out')) left' where
  deeper := rest.deeper
  place more next := by
    subst column
    have shallow := standing'.shallow_next next
    have opens := standing.any_next inside shallow
    have inBody := body.place (after.map .statement ++ more)
      fun n hn => Nat.le_of_lt (Nat.lt_of_le_of_lt (shallow n hn) inside)
    rw [List.nil_append] at inBody
    have behind := rest.place more next
    rw [List.append_assoc, List.singleton_append] at behind
    rw [List.map_cons, List.map_append, List.cons_append, List.append_assoc,
      place_statement deeper, opens, braced, form.longForm_eq,
      standing.place_deeper inside some, inBody, behind]
    cases Indentation.place file false (left' ++ line.column :: outer) more with
    | error e => rfl
    | ok p => simp [Except.map, some]
  written closes more := by
    obtain ⟨opening, whole, closes', written, e⟩ := rest.written closes more
    -- the last of these braces is the end of this statement, those before it are in its body
    rw [List.length_append, List.length_singleton] at closes'
    obtain ⟨⟩ | ⟨closes', hg⟩ := closes'
    rename_i closing' g
    obtain ⟨opening', whole', ⟨hg'⟩, written', e'⟩ := body.written closes' (.nil isGap_nil)
    rw [List.append_nil] at written'
    have braces := hasBraces_of_body some
    refine ⟨_, _, closes_flatten entry.length, .block isGap_nil braces
      (.gap (isGap_break.append hg') written') (.gap hg written), ?_⟩
    have inBody : textOf out ++ (closing' ++ ['\x7d'] ++ g ++ whole) =
        opening' ++ whole' ++ ['\x7d'] ++ g ++ whole := by
      rw [← e']
      simp only [List.append_assoc, List.nil_append]
    rw [textOf_cons, textOf_append]
    simp only [List.append_assoc, List.nil_append] at e inBody ⊢
    rw [e, inBody]

/-- **What becomes of the lines of an outline.** -/
theorem Stands.placed (file : String) (h : Stands c os lines) (entry outer : List Nat)
    (deeper : ∀ d ∈ entry, c < d) :
    ∃ out left, Placed file c os lines entry outer out left := by
  -- the blocks before a statement are those left in the body of the one before it
  induction h generalizing entry outer with
  | nil => exact ⟨_, _, placed_nil deeper⟩
  | @cons c d o os line inner after column form inside standing standing' ihBody ihRest =>
    by_cases none : o.body = []
    · have empty : inner = [] := by
        rw [none] at standing
        cases standing
        rfl
      obtain ⟨out, left, rest⟩ := ihRest [] outer (by simp)
      subst empty
      exact ⟨_, _, rest.bodiless standing' column form none deeper⟩
    · obtain ⟨out, left, body⟩ := ihBody [] (c :: outer) (by simp)
      have leaves : ∀ n ∈ left ++ [d], c < n := by
        intro n hn
        rcases List.mem_append.1 hn with hn | hn
        · exact Nat.lt_trans inside (body.deeper n hn)
        · exact List.mem_singleton.1 hn ▸ inside
      obtain ⟨out', left', rest⟩ := ihRest _ outer leaves
      exact ⟨_, _, body.block rest standing standing' column form none inside deeper⟩

end Outline
end Stylesheet
