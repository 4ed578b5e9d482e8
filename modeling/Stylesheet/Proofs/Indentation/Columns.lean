/-
# The columns of open blocks

In a source without comments every line that is not blank is a statement.  The block at a
column is open after some statements (`Indentation.IsOpen`) if a statement stands at the
column and none has been left of it since; the top level is at column 0.  A statement that
is no deeper than the one before it has to stand at the column of an open block
(`Indentation.Misplaced`), and the first one has to stand at column 0.

While the lines are placed, the stack of columns holds those of the open blocks, the
innermost first (`Indentation.Stack`), so a source is refused at its first statement that
stands wrong, and otherwise every line closes the blocks that are left there and opens one
exactly if the next statement is deeper (`Indentation.toBraces_of_uncommented`).
-/

import Mathlib.Data.Finset.Card
import Mathlib.Data.List.Infix
import Stylesheet.Indentation

namespace Stylesheet
namespace Indentation

open Text

/-- The statements among some lines without comments. -/
def statementsOf (lines : List (Option Line)) : List Line :=
  lines.filterMap id

/-- Whether the block at a column is open after some statements: it is the top level, or a
statement is at the column and none has been left of it since. -/
def IsOpen (past : List Line) (c : Nat) : Prop :=
  c = 0 ∨ ∃ line since, line :: since <:+ past ∧ line.column = c ∧ ∀ l ∈ since, c ≤ l.column

/-- The column of the last statement. -/
def lastColumn (past : List Line) : Nat :=
  past.getLast?.elim 0 Line.column

/-- Whether a statement is no deeper than the one before it, but in none of the open blocks. -/
def Misplaced (past : List Line) (line : Line) : Prop :=
  line.column ≤ lastColumn past ∧ ¬IsOpen past line.column

/-- Whether no statement is misplaced after those before it. -/
def Consistent (past : List Line) : List Line → Prop
  | [] => True
  | line :: after => ¬Misplaced past line ∧ Consistent (past ++ [line]) after

variable {past before after : List Line} {line : Line} {c k : Nat} {columns : List Nat}
  {lines : List (Option Line)} {file : String}

instance : Decidable (IsOpen past c) :=
  decidable_of_iff (c = 0 ∨ ∃ t ∈ past.tails, ∃ line ∈ t.head?, line.column = c ∧
      ∀ l ∈ t.tail, c ≤ l.column) <| or_congr_right <| by
    constructor
    · rintro ⟨_ | ⟨line, since⟩, mem, l, hl, here, right⟩
      · cases hl
      · cases hl
        exact ⟨line, since, (List.mem_tails _ _).1 mem, here, right⟩
    · rintro ⟨line, since, suffix, here, right⟩
      exact ⟨line :: since, (List.mem_tails _ _).2 suffix, line, rfl, here, right⟩

instance : Decidable (Misplaced past line) :=
  inferInstanceAs (Decidable (_ ∧ _))

instance decidableConsistent : (past lines : List Line) → Decidable (Consistent past lines)
  | _, [] => .isTrue trivial
  | past, line :: after =>
    have := decidableConsistent (past ++ [line]) after
    inferInstanceAs (Decidable (_ ∧ _))

/-- The columns of the open blocks, the top level among them. -/
def openColumns (past : List Line) : Finset Nat :=
  {c ∈ insert 0 (past.map Line.column).toFinset | IsOpen past c}

/-- How many open blocks a statement at a column leaves. -/
def blocksLeft (past : List Line) (column : Nat) : Nat :=
  {c ∈ openColumns past | column < c}.card

/-! ### Open blocks -/

/-- The top level is open from the start to the end. -/
theorem isOpen_zero (past : List Line) : IsOpen past 0 :=
  .inl rfl

/-- Only the top level is open at first. -/
theorem isOpen_nil : IsOpen [] c ↔ c = 0 := by
  simp [IsOpen]

/-- A statement opens the block at its column and closes those that are deeper. -/
theorem isOpen_concat :
    IsOpen (past ++ [line]) c ↔ c = line.column ∨ c < line.column ∧ IsOpen past c := by
  constructor
  · rintro (rfl | ⟨l, since, suffix, rfl, right⟩)
    · rcases Nat.eq_zero_or_pos line.column with zero | pos
      · exact .inl zero.symm
      · exact .inr ⟨pos, isOpen_zero past⟩
    · obtain empty | ⟨t, e, suffix'⟩ := List.suffix_concat_iff.1 suffix
      · cases empty
      · cases t with
        | nil =>
          cases e
          exact .inl rfl
        | cons _ t =>
          cases e
          have right' := List.forall_mem_append.1 right
          rcases Nat.eq_or_lt_of_le (right'.2 line (by simp)) with here | less
          · exact .inl here
          · exact .inr ⟨less, .inr ⟨l, t, suffix', rfl, right'.1⟩⟩
  · rintro (rfl | ⟨less, rfl | ⟨l, since, suffix, rfl, right⟩⟩)
    · exact .inr ⟨line, [], List.suffix_append past [line], rfl, List.forall_mem_nil _⟩
    · exact isOpen_zero _
    · refine .inr ⟨l, since ++ [line], List.suffix_concat_iff.2 (.inr ⟨l :: since, rfl, suffix⟩),
        rfl, List.forall_mem_append.2 ⟨right, List.forall_mem_singleton.2 less.le⟩⟩

/-- The last column is that of the statement that comes last. -/
theorem lastColumn_concat (past : List Line) (line : Line) :
    lastColumn (past ++ [line]) = line.column := by
  simp [lastColumn]

/-- The block of the last statement is open. -/
theorem isOpen_lastColumn (past : List Line) : IsOpen past (lastColumn past) := by
  rcases List.eq_nil_or_concat' past with rfl | ⟨past, line, rfl⟩
  · exact isOpen_zero []
  · exact isOpen_concat.2 (.inl (lastColumn_concat past line))

/-- It is the innermost one. -/
theorem IsOpen.le_lastColumn (h : IsOpen past c) : c ≤ lastColumn past := by
  rcases List.eq_nil_or_concat' past with rfl | ⟨past, line, rfl⟩
  · exact (isOpen_nil.1 h).le
  · rw [lastColumn_concat]
    rcases isOpen_concat.1 h with rfl | ⟨less, -⟩
    · exact le_rfl
    · exact less.le

/-- The columns are those of the open blocks. -/
theorem mem_openColumns : c ∈ openColumns past ↔ IsOpen past c := by
  rw [openColumns, Finset.mem_filter, and_iff_right_iff_imp]
  rintro (rfl | ⟨line, since, suffix, rfl, -⟩)
  · exact Finset.mem_insert_self _ _
  · refine Finset.mem_insert_of_mem (List.mem_toFinset.2 (List.mem_map_of_mem ?_))
    exact suffix.mem List.mem_cons_self

/-! ### The stack of columns -/

/-- Whether a stack holds the columns of the open blocks, the innermost first. -/
structure Stack (past : List Line) (columns : List Nat) : Prop where
  decreasing : columns.Pairwise (· > ·)
  mem : ∀ c, c ∈ columns ↔ IsOpen past c

/-- At first the stack holds the top level only. -/
theorem Stack.start : Stack [] [0] where
  decreasing := List.pairwise_singleton _ _
  mem c := by rw [List.mem_singleton, isOpen_nil]

/-- The first of some numbers that decrease is the largest. -/
theorem headD_eq_of_decreasing (h : columns.Pairwise (· > ·)) (mem : k ∈ columns)
    (most : ∀ c ∈ columns, c ≤ k) : columns.headD 0 = k := by
  cases columns with
  | nil => cases mem
  | cons c rest =>
    rcases List.mem_cons.1 mem with rfl | later
    · rfl
    · have less : c > k := (List.pairwise_cons.1 h).1 k later
      exact absurd (most c List.mem_cons_self) (by omega)

/-- The innermost block is that of the last statement. -/
theorem Stack.headD_eq (h : Stack past columns) : columns.headD 0 = lastColumn past :=
  headD_eq_of_decreasing h.decreasing ((h.mem _).2 (isOpen_lastColumn past))
    fun c hc => ((h.mem c).1 hc).le_lastColumn

/-- What is left of a stack that decreases are the deeper columns. -/
theorem leave_of_decreasing (h : columns.Pairwise (· > ·)) (k : Nat) :
    leave k columns = ((columns.filter (k < ·)).length, columns.filter (· ≤ k)) := by
  induction columns with
  | nil => rfl
  | cons c rest ih =>
    obtain ⟨least, h⟩ := List.pairwise_cons.1 h
    rw [leave]
    split
    · rename_i less
      rw [ih h, List.filter_cons_of_pos (by simpa using less),
        List.filter_cons_of_neg (by simpa using less)]
      rfl
    · rename_i notLess
      have shallow : ∀ d ∈ c :: rest, d ≤ k := by
        rintro d (_ | ⟨_, hd⟩)
        · omega
        · have : c > d := least d hd
          omega
      have none : (c :: rest).filter (k < ·) = [] :=
        List.filter_eq_nil_iff.2 fun d hd => by simpa using shallow d hd
      have all : (c :: rest).filter (· ≤ k) = c :: rest :=
        List.filter_eq_self.2 fun d hd => by simpa using shallow d hd
      rw [none, all]
      rfl

/-- The blocks that are left are counted. -/
theorem Stack.length_deeper (h : Stack past columns) (k : Nat) :
    (columns.filter (k < ·)).length = blocksLeft past k := by
  have nodup : (columns.filter (k < ·)).Nodup :=
    (h.decreasing.imp fun {_ _} less => Nat.ne_of_gt less).filter _
  rw [blocksLeft, ← List.toFinset_card_of_nodup nodup]
  congr 1
  ext c
  simp [h.mem, mem_openColumns]

/-- Leaving blocks takes the deeper columns off, and counts them. -/
theorem Stack.leave_eq (h : Stack past columns) (k : Nat) :
    leave k columns = (blocksLeft past k, columns.filter (· ≤ k)) := by
  rw [leave_of_decreasing h.decreasing, h.length_deeper]

/-- The innermost block that is not left is at the column exactly if one is open there. -/
theorem Stack.headD_shallow (h : Stack past columns) :
    (columns.filter (· ≤ k)).headD 0 = k ↔ IsOpen past k := by
  constructor
  · intro e
    cases kept : columns.filter (· ≤ k) with
    | nil =>
      rw [kept] at e
      exact e ▸ isOpen_zero past
    | cons c rest =>
      rw [kept, List.headD_cons] at e
      have mem : c ∈ columns.filter (· ≤ k) := kept ▸ List.mem_cons_self
      exact e ▸ (h.mem c).1 (List.mem_of_mem_filter mem)
  · intro isOpen
    refine headD_eq_of_decreasing (h.decreasing.filter _) ?_ fun c hc => ?_
    · exact List.mem_filter.2 ⟨(h.mem k).2 isOpen, by simp⟩
    · simpa using (List.mem_filter.1 hc).2

/-- A statement at the column of an open block leaves the deeper ones. -/
theorem Stack.shallow (h : Stack past columns) (isOpen : IsOpen past line.column) :
    Stack (past ++ [line]) (columns.filter (· ≤ line.column)) where
  decreasing := h.decreasing.filter _
  mem c := by
    rw [List.mem_filter, isOpen_concat, h.mem, decide_eq_true_eq, Nat.le_iff_lt_or_eq]
    constructor
    · rintro ⟨here, less | rfl⟩
      · exact .inr ⟨less, here⟩
      · exact .inl rfl
    · rintro (rfl | ⟨less, here⟩)
      · exact ⟨isOpen, .inr rfl⟩
      · exact ⟨here, .inl less⟩

/-- A deeper statement opens a block. -/
theorem Stack.deeper (h : Stack past columns) (deeper : lastColumn past < line.column) :
    Stack (past ++ [line]) (line.column :: columns) where
  decreasing := List.pairwise_cons.2 ⟨fun c hc =>
    ((h.mem c).1 hc).le_lastColumn.trans_lt deeper, h.decreasing⟩
  mem c := by
    rw [List.mem_cons, isOpen_concat, h.mem]
    exact or_congr_right
      ⟨fun here => ⟨here.le_lastColumn.trans_lt deeper, here⟩, And.right⟩

/-- A statement that is deeper than all blocks leaves none. -/
theorem blocksLeft_of_deeper (deeper : lastColumn past < k) : blocksLeft past k = 0 := by
  rw [blocksLeft, Finset.card_eq_zero, Finset.filter_eq_empty_iff]
  intro c hc
  exact Nat.not_lt.2 ((mem_openColumns.1 hc).le_lastColumn.trans deeper.le)

/-- Of some numbers that decrease only one is zero. -/
theorem length_eq_one_of_decreasing (h : columns.Pairwise (· > ·)) (mem : 0 ∈ columns)
    (zero : ∀ c ∈ columns, c = 0) : columns.length = 1 := by
  match columns with
  | [] => cases mem
  | [_] => rfl
  | c :: d :: rest =>
    have less : c > d := (List.pairwise_cons.1 h).1 d List.mem_cons_self
    exact absurd (zero c List.mem_cons_self) (by omega)

/-- All blocks but the top level are left at the end. -/
theorem Stack.length_sub_one (h : Stack past columns) :
    columns.length - 1 = blocksLeft past 0 := by
  have parts := List.length_eq_length_filter_add (l := columns) (0 < ·)
  have top : (columns.filter fun c => !decide (0 < c)).length = 1 := by
    refine length_eq_one_of_decreasing (h.decreasing.filter _) ?_ fun c hc => ?_
    · exact List.mem_filter.2 ⟨(h.mem 0).2 (isOpen_zero past), rfl⟩
    · simpa using (List.mem_filter.1 hc).2
  rw [top, h.length_deeper] at parts
  omega

/-! ### Placing the lines -/

/-- What a line without comments is. -/
def role : Option Line → Role
  | none => .blank
  | some line => .statement line

/-- Without comments every line is a statement or blank. -/
theorem roles_of_uncommented (h : ∀ line ∈ statementsOf lines, opens? line = none) :
    roles none lines = lines.map role := by
  induction lines with
  | nil => rfl
  | cons o lines ih =>
    cases o with
    | none => exact congrArg (Role.blank :: ·) (ih h)
    | some line =>
      obtain ⟨here, h⟩ := List.forall_mem_cons.1 (show ∀ l ∈ line :: statementsOf lines, _ from h)
      simp only [roles, Option.filter_none, here, ih h]
      rfl

/-- The next column is that of the next statement. -/
theorem nextColumn?_map_role (lines : List (Option Line)) :
    nextColumn? (lines.map role) = (statementsOf lines).head?.map Line.column := by
  induction lines with
  | nil => rfl
  | cons o lines ih =>
    cases o with
    | none => exact ih
    | some line => rfl

/-- What a statement becomes between those before it and those after it. -/
def placedLine (past : List Line) (line : Line) (after : List Line) : List Char :=
  (List.replicate (blocksLeft past line.column) ['\x7d', ' ']).flatten ++
    braced line.content (after.head?.any (line.column < ·.column))

/-- What some lines become after some statements. -/
def placedLines (past : List Line) : List (Option Line) → List (List Char)
  | [] => []
  | none :: rest => [] :: placedLines past rest
  | some line :: rest =>
    placedLine past line (statementsOf rest) :: placedLines (past ++ [line]) rest

/-- The refusal of a source at a statement. -/
def refusal (file : String) (cause : Cause) (line : Line) : Diagnostic :=
  { cause, span := { file, line := line.number + 1 } }

/-- A blank line becomes a blank line. -/
theorem place_blank (first : Bool) (columns : List Nat) (rest : List Role) :
    place file first columns (.blank :: rest) =
      (place file first columns rest).map fun p => ([] :: p.1, p.2) := by
  rw [place]
  cases place file first columns rest <;> rfl

/-- **A statement that stands right** closes the blocks that it leaves, and the stack goes on
with the blocks that are open after it. -/
theorem Stack.place_statement (h : Stack past columns) (file : String)
    (starts : past = [] → line.column = 0) (right : ¬Misplaced past line)
    (rest : List (Option Line)) :
    ∃ columns', Stack (past ++ [line]) columns' ∧
      place file past.isEmpty columns (.statement line :: rest.map role) =
        (place file false columns' (rest.map role)).map fun p =>
          (placedLine past line (statementsOf rest) :: p.1, p.2) := by
  by_cases deeper : lastColumn past < line.column
  · have some : past.isEmpty = false := by
      rw [List.isEmpty_eq_false_iff]
      intro empty
      exact absurd (starts empty) (by omega)
    refine ⟨_, h.deeper deeper, ?_⟩
    rw [place, nextColumn?_map_role, h.headD_eq, if_pos deeper, some,
      if_neg Bool.false_ne_true, placedLine, blocksLeft_of_deeper deeper]
    cases (statementsOf rest).head? <;>
      cases place file false (line.column :: columns) (rest.map role) <;> rfl
  · have isOpen : IsOpen past line.column := by
      by_contra closed
      exact right ⟨Nat.not_lt.1 deeper, closed⟩
    refine ⟨_, h.shallow isOpen, ?_⟩
    rw [place, nextColumn?_map_role, h.headD_eq, if_neg deeper, h.leave_eq]
    dsimp only
    rw [if_neg (not_not_intro (h.headD_shallow.2 isOpen)), placedLine]
    cases (statementsOf rest).head? <;>
      cases place file false (columns.filter (· ≤ line.column)) (rest.map role) <;> rfl

/-- **A statement that stands in none of the open blocks** is refused. -/
theorem Stack.place_misplaced (h : Stack past columns) (wrong : Misplaced past line)
    (first : Bool) (rest : List Role) :
    place file first columns (.statement line :: rest) =
      .error (refusal file .inconsistentIndent line) := by
  obtain ⟨shallow, closed⟩ := wrong
  rw [place, h.headD_eq, if_neg (Nat.not_lt.2 shallow), h.leave_eq]
  exact if_pos fun e => closed (h.headD_shallow.1 e)

/-- **All lines are placed** if no statement is misplaced. -/
theorem Stack.place_lines (h : Stack past columns) (file : String)
    (starts : past = [] → ∀ first ∈ (statementsOf lines).head?, first.column = 0)
    (right : Consistent past (statementsOf lines)) :
    ∃ columns', Stack (past ++ statementsOf lines) columns' ∧
      place file past.isEmpty columns (lines.map role) =
        .ok (placedLines past lines, columns') := by
  induction lines generalizing past columns with
  | nil => exact ⟨columns, by simpa [statementsOf] using h, by rw [List.map_nil, place]; rfl⟩
  | cons o lines ih =>
    cases o with
    | none =>
      obtain ⟨columns', h', placed⟩ := ih h starts right
      refine ⟨columns', h', ?_⟩
      rw [List.map_cons, role, place_blank, placed]
      rfl
    | some line =>
      obtain ⟨here, right⟩ := right
      obtain ⟨columns', h', first⟩ := h.place_statement file
        (fun empty => starts empty line rfl) here lines
      obtain ⟨columns'', h'', others⟩ := ih h' (fun empty => by simp at empty) right
      refine ⟨columns'', by simpa [statementsOf] using h'', ?_⟩
      rw [List.isEmpty_eq_false_iff.2 (by simp)] at others
      rw [List.map_cons, role, first, others]
      rfl

/-- **The first statement that is misplaced** is where the lines are refused. -/
theorem Stack.place_lines_misplaced (h : Stack past columns) (file : String)
    (starts : past = [] → ∀ first ∈ (statementsOf lines).head?, first.column = 0)
    (found : statementsOf lines = before ++ line :: after) (right : Consistent past before)
    (wrong : Misplaced (past ++ before) line) :
    place file past.isEmpty columns (lines.map role) =
      .error (refusal file .inconsistentIndent line) := by
  induction lines generalizing past columns before with
  | nil => simp [statementsOf] at found
  | cons o lines ih =>
    cases o with
    | none =>
      rw [List.map_cons, role, place_blank, ih h starts found right wrong]
      rfl
    | some l =>
      change l :: statementsOf lines = before ++ line :: after at found
      cases before with
      | nil =>
        cases found
        rw [List.append_nil] at wrong
        exact h.place_misplaced wrong _ _
      | cons b before =>
        obtain ⟨rfl, behind⟩ := List.cons.inj found
        obtain ⟨here, right⟩ := right
        obtain ⟨columns', h', first⟩ := h.place_statement file
          (fun empty => starts empty l rfl) here lines
        have others := ih h' (fun empty => by simp at empty) behind right (by simpa using wrong)
        rw [List.isEmpty_eq_false_iff.2 (by simp)] at others
        rw [List.map_cons, role, first, others]
        rfl

/-- The first statement has to be at the left. -/
theorem place_lines_indented (first : statementsOf lines = line :: after)
    (deep : 0 < line.column) :
    place file true [0] (lines.map role) = .error (refusal file .leadingIndent line) := by
  induction lines with
  | nil => cases first
  | cons o lines ih =>
    cases o with
    | none =>
      rw [List.map_cons, role, place_blank, ih first]
      rfl
    | some l =>
      cases first
      rw [List.map_cons, role, place]
      exact if_pos deep

/-! ### The lines of the outcome -/

/-- Every line of the source becomes one line. -/
theorem length_placedLines (past : List Line) (lines : List (Option Line)) :
    (placedLines past lines).length = lines.length := by
  fun_induction placedLines past lines with
  | case1 => rfl
  | case2 _ _ ih | case3 _ _ _ ih => rw [List.length_cons, List.length_cons, ih]

/-- A blank line stays one. -/
theorem placedLines_blank {i : Nat} (blank : lines[i]? = some none) (past : List Line) :
    (placedLines past lines)[i]? = some [] := by
  induction lines generalizing past i with
  | nil => simp at blank
  | cons o lines ih =>
    cases i with
    | zero =>
      cases blank
      rfl
    | succ i =>
      rw [List.getElem?_cons_succ] at blank
      cases o with
      | none => exact ih blank past
      | some line => exact ih blank (past ++ [line])

/-- A statement stands on its line. -/
theorem placedLines_statement (past : List Line) (above : List (Option Line))
    (below : List (Option Line)) :
    (placedLines past (above ++ some line :: below))[above.length]? =
      some (placedLine (past ++ statementsOf above) line (statementsOf below)) := by
  induction above generalizing past with
  | nil => simp [placedLines, statementsOf]
  | cons o above ih =>
    cases o with
    | none => exact ih past
    | some l => simpa [placedLines, statementsOf] using ih (past ++ [l])

/-- Every statement has its line in the source. -/
theorem exists_lines_of_statementsOf (found : statementsOf lines = before ++ line :: after) :
    ∃ above below, lines = above ++ some line :: below ∧ statementsOf above = before ∧
      statementsOf below = after := by
  obtain ⟨above, rest, rfl, habove, hrest⟩ := List.filterMap_eq_append_iff.1 found
  obtain ⟨blanks, o, below, rfl, blank, rfl, hbelow⟩ := List.filterMap_eq_cons_iff.1 hrest
  refine ⟨above ++ blanks, below, by simp, ?_, hbelow⟩
  have none : statementsOf blanks = [] := List.filterMap_eq_nil_iff.2 blank
  rw [statementsOf, List.filterMap_append, habove]
  exact (congrArg (before ++ ·) none).trans (List.append_nil before)

/-- A translation ends with an opening brace exactly if it has a block. -/
theorem braced_opens_iff (content : List Char) (hasBlock : Bool) :
    [' ', '\x7b'] <:+ braced content hasBlock ↔ hasBlock = true := by
  have ends (ts : List Char) : ¬[' ', '\x7b'] <:+ ts ++ ending (longForm content) := by
    have last : ∃ us, ∃ x ≠ '\x7b', ending (longForm content) = us ++ [x] := by
      unfold ending
      dsimp only
      repeat' split
      all_goals first
        | exact ⟨[' ', '\x7b'], '\x7d', by decide, rfl⟩
        | exact ⟨[], ';', by decide, rfl⟩
    obtain ⟨us, x, other, e⟩ := last
    rw [e, ← List.append_assoc]
    intro suffix
    rcases List.suffix_concat_iff.1 suffix with empty | ⟨t, e, -⟩
    · cases empty
    · have same : ['\x7b'] = [x] :=
        (List.append_inj' (show [' '] ++ ['\x7b'] = t ++ [x] from e) rfl).2
      exact other (List.singleton_inj.1 same).symm
  cases hasBlock with
  | true => simp [braced]
  | false => simpa [braced] using ends _

/-- Whether a source is refused at a statement with a message. -/
def RefusedAt (file : String) (line : Line) (message : String)
    (outcome : Except Failure String) : Prop :=
  ∃ d, outcome = .error (.diagnostic d) ∧ d.cause.message = message ∧
    d.span = { file, line := line.number + 1 }

/-- What comes of the lines of a source. -/
theorem toBraces_fst (file text : String) (log : Log) :
    (toBraces file text log).1 = match outcome file (splitLines text.toList) with
      | .error d => .error (.diagnostic d)
      | .ok lines => .ok (joinLines (lines.map String.ofList)) := by
  unfold toBraces
  cases outcome file (splitLines text.toList) <;> rfl

/-- A source without comments is refused where its lines are. -/
theorem refusedAt_of_place {source : List (List Char)} {text : String} {cause : Cause}
    (lined : splitLines text.toList = source)
    (uncommented : ∀ line ∈ statementsOf (source.mapIdx lineOf?), opens? line = none)
    (refused : place file true [0] ((source.mapIdx lineOf?).map role) =
      .error (refusal file cause line)) (log : Log) :
    RefusedAt file line cause.message (toBraces file text log).1 := by
  refine ⟨refusal file cause line, ?_, rfl, rfl⟩
  rw [toBraces_fst, lined, outcome, roles_of_uncommented uncommented, refused]
  rfl

/-- The number of a statement is its place among the lines. -/
theorem number_of_getElem? {source : List (List Char)} {i : Nat}
    (here : (source.mapIdx lineOf?)[i]? = some (some line)) : line.number = i := by
  rw [List.getElem?_mapIdx, Option.map_eq_some_iff] at here
  obtain ⟨raw, -, here⟩ := here
  simp only [lineOf?] at here
  split at here
  · cases here
  · exact (congrArg Line.number (Option.some.inj here)).symm

/-- A statement has as many lines above it as its number says. -/
theorem number_of_mapIdx {source : List (List Char)} {above below : List (Option Line)}
    (e : source.mapIdx lineOf? = above ++ some line :: below) : above.length = line.number := by
  have here : (source.mapIdx lineOf?)[above.length]? = some (some line) := by
    rw [e, List.getElem?_append_right (Nat.le_refl _), Nat.sub_self]
    rfl
  exact (number_of_getElem? here).symm

/-- A source without comments whose statements stand right becomes one line for each of its
lines, and one that closes the blocks that are open at the end. -/
theorem outcome_of_consistent (file : String) {source : List (List Char)}
    (uncommented : ∀ line ∈ statementsOf (source.mapIdx lineOf?), opens? line = none)
    (starts : ∀ first ∈ (statementsOf (source.mapIdx lineOf?)).head?, first.column = 0)
    (right : Consistent [] (statementsOf (source.mapIdx lineOf?))) :
    let left := blocksLeft (statementsOf (source.mapIdx lineOf?)) 0
    outcome file source = .ok (placedLines [] (source.mapIdx lineOf?) ++
      if left = 0 then [] else [List.replicate left '\x7d']) := by
  intro left
  obtain ⟨columns, stack, placed⟩ := Stack.start.place_lines file (fun _ => starts) right
  have count : columns.length - 1 = left := stack.length_sub_one
  rw [outcome, roles_of_uncommented uncommented]
  change place file true [0] _ = _ at placed
  rw [placed, ← count]
  rfl

/-- **A source without comments is translated as it is indented, or refused.**  It is refused
at its first statement if that is indented, and else at the first statement that is no deeper
than the one before it and at the column of no open block.  Otherwise it becomes one line for
each of its lines, blank where that is blank: a statement closes the blocks that are left since
the one before it, and its translation ends with an opening brace exactly if the next statement
is deeper.  The blocks still open at the end are closed on one more line. -/
theorem toBraces_of_uncommented (file text : String) (log : Log)
    (uncommented : ∀ line ∈ statementsOf ((splitLines text.toList).mapIdx lineOf?),
      opens? line = none) :
    let source := splitLines text.toList
    let statements := statementsOf (source.mapIdx lineOf?)
    let outcome := (toBraces file text log).1
    (∀ first after, statements = first :: after → 0 < first.column →
        RefusedAt file first "Indenting at the beginning of the document is illegal." outcome) ∧
      ((∀ first ∈ statements.head?, first.column = 0) →
        (∀ before line after, statements = before ++ line :: after → Consistent [] before →
            Misplaced before line → RefusedAt file line "Inconsistent indentation." outcome) ∧
          (Consistent [] statements → ∃ lines : List (List Char),
            let open' := blocksLeft statements 0
            let closing := if open' = 0 then [] else [List.replicate open' '\x7d']
            outcome = .ok ("\n".intercalate ((lines ++ closing).map String.ofList) ++ "\n") ∧
              lines.length = source.length ∧
              (∀ (i : Nat) (raw : List Char), source[i]? = some raw → trimChars raw = [] →
                lines[i]? = some []) ∧
              ∀ before line after, statements = before ++ line :: after →
                ∃ translation,
                  lines[line.number]? = some ((List.replicate (blocksLeft before line.column)
                    ['\x7d', ' ']).flatten ++ translation) ∧
                  translation = braced line.content
                    (after.head?.any (line.column < ·.column)) ∧
                  ([' ', '\x7b'] <:+ translation ↔
                    ∃ next ∈ after.head?, line.column < next.column))) := by
  intro source statements result
  refine ⟨fun first after found deep => ?_,
    fun starts => ⟨fun before line after found right wrong => ?_, fun right => ?_⟩⟩
  · exact refusedAt_of_place rfl uncommented (place_lines_indented found deep) log
  · have refused := Stack.start.place_lines_misplaced file (fun _ => starts) found right
      (by simpa using wrong)
    exact refusedAt_of_place rfl uncommented refused log
  · refine ⟨placedLines [] (source.mapIdx lineOf?), ?_, ?_, fun i raw here blank => ?_,
      fun before line after found => ?_⟩
    · show (toBraces file text log).1 = _
      rw [toBraces_fst, outcome_of_consistent file uncommented starts right]
      rfl
    · rw [length_placedLines, List.length_mapIdx]
    · refine placedLines_blank ?_ []
      rw [List.getElem?_mapIdx, here]
      simp [lineOf?, blank]
    · obtain ⟨above, below, e, rfl, rfl⟩ := exists_lines_of_statementsOf found
      refine ⟨_, ?_, rfl, ?_⟩
      · rw [← number_of_mapIdx e, e]
        exact placedLines_statement [] above below
      · rw [braced_opens_iff]
        cases (statementsOf below).head? <;> simp

/-- After two blocks that end at once, over a blank line, and before one that is open at the
end. -/
theorem toBraces_of_uncommented_dedent :
    ∃ lines : List (List Char),
      (toBraces "s" "a\n  b\n    c: d\n\ne\n  f: g\n" {}).1 =
          .ok ("\n".intercalate ((lines ++ [['\x7d']]).map String.ofList) ++ "\n") ∧
        lines.length = 6 ∧ lines[3]? = some [] ∧ lines[4]? = some "\x7d \x7d e \x7b".toList := by
  obtain ⟨-, rest⟩ := toBraces_of_uncommented "s" "a\n  b\n    c: d\n\ne\n  f: g\n" {}
    (by decide +kernel)
  obtain ⟨-, done⟩ := rest (by decide +kernel)
  obtain ⟨lines, written, length, blank, statement⟩ := done (by decide +kernel)
  refine ⟨lines, written, length, blank 3 [] rfl rfl, ?_⟩
  obtain ⟨_, line, rfl, -⟩ := statement
    [⟨0, 0, ['a']⟩, ⟨1, 2, ['b']⟩, ⟨2, 4, "c: d".toList⟩] ⟨4, 0, ['e']⟩ [⟨5, 2, "f: g".toList⟩] rfl
  exact line

end Indentation
end Stylesheet
