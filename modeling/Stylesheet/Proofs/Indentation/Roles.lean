/-
# The lines of a source and those of its outcome

A line goes on with a comment above it (`Indentation.Inside`) if that starts on a line above
and everything since is right of its column; this is what is carried along when the lines are
told apart (`Indentation.inside_iff`).  Every line of the source becomes one of the outcome
(`Indentation.Written`): a blank line stays blank, a line of a comment is written as it is, and
a statement closes the blocks that it leaves and opens one or ends.
-/

import Mathlib.Data.List.Induction
import Mathlib.Data.List.ReduceOption
import Stylesheet.Proofs.Indentation.Columns

namespace Stylesheet
namespace Indentation

open Text

variable {above below rest : List (Option Line)} {line : Line} {k : Nat}
  {current : Option OpenComment}

/-! ### Comments -/

/-- Whether a line at a column goes on with a comment that starts on one of the lines above it:
the column and all lines since are right of that. -/
def Inside (above : List (Option Line)) (column : Nat) : Prop :=
  ∃ before start since, above = before ++ some start :: since ∧ (opens? start).isSome ∧
    (∀ line ∈ since.reduceOption, start.column < line.column) ∧ start.column < column

/-- The comment that is open after a line. -/
def goOn (current : Option OpenComment) (line : Line) : Option OpenComment :=
  (current.filter fun c => c.column < line.column).or (opens? line)

/-- The comment that is open after some lines. -/
def openAfter (current : Option OpenComment) (lines : List (Option Line)) : Option OpenComment :=
  lines.reduceOption.foldl goOn current

/-- A comment starts at the column of its line. -/
theorem column_of_opens? {c : OpenComment} (h : opens? line = some c) : c.column = line.column := by
  unfold opens? at h
  split at h
  · cases h
    rfl
  · split at h
    · cases h
      rfl
    · cases h

/-- A blank line leaves the comment open. -/
theorem openAfter_concat_none : openAfter none (above ++ [none]) = openAfter none above := by
  simp [openAfter, List.reduceOption_append]

/-- A line goes on with the comment that is open after the lines above it. -/
theorem openAfter_concat_some :
    openAfter none (above ++ [some line]) = goOn (openAfter none above) line := by
  simp [openAfter, List.reduceOption_append]

/-- A blank line takes no line out of a comment. -/
theorem inside_concat_none : Inside (above ++ [none]) k ↔ Inside above k := by
  constructor
  · rintro ⟨before, start, since, e, opens, deeper, right⟩
    rcases List.eq_nil_or_concat' since with rfl | ⟨since, last, rfl⟩
    · exact absurd (List.append_inj' e rfl).2 (by simp)
    · rw [← List.cons_append, ← List.append_assoc] at e
      obtain ⟨rfl, blank⟩ := List.append_inj' e rfl
      cases blank
      rw [List.reduceOption_append] at deeper
      exact ⟨before, start, since, rfl, opens, (List.forall_mem_append.1 deeper).1, right⟩
  · rintro ⟨before, start, since, rfl, opens, deeper, right⟩
    refine ⟨before, start, since ++ [none], by simp, opens, ?_, right⟩
    simpa [List.reduceOption_append] using deeper

/-- A line that is right of the comment goes on with it, and another one may start one. -/
theorem inside_concat_some :
    Inside (above ++ [some line]) k ↔
      Inside above (min line.column k) ∨ (opens? line).isSome ∧ line.column < k := by
  constructor
  · rintro ⟨before, start, since, e, opens, deeper, right⟩
    rcases List.eq_nil_or_concat' since with rfl | ⟨since, last, rfl⟩
    · obtain ⟨-, here⟩ := List.append_inj' e rfl
      cases here
      exact .inr ⟨opens, right⟩
    · rw [← List.cons_append, ← List.append_assoc] at e
      obtain ⟨rfl, here⟩ := List.append_inj' e rfl
      cases here
      rw [List.reduceOption_append, List.forall_mem_append] at deeper
      exact .inl ⟨before, start, since, rfl, opens, deeper.1,
        Nat.lt_min.2 ⟨deeper.2 line (by simp), right⟩⟩
  · rintro (⟨before, start, since, rfl, opens, deeper, right⟩ | ⟨opens, right⟩)
    · obtain ⟨here, right⟩ := Nat.lt_min.1 right
      refine ⟨before, start, since ++ [some line], by simp, opens, ?_, right⟩
      rw [List.reduceOption_append, List.forall_mem_append]
      exact ⟨deeper, by simpa using here⟩
    · exact ⟨above, line, [], rfl, opens, by simp, right⟩

/-- **The comment that is carried along** is the one that a line goes on with. -/
theorem inside_iff : Inside above k ↔ ∃ c ∈ openAfter none above, c.column < k := by
  induction above using List.reverseRecOn generalizing k with
  | nil => exact ⟨fun ⟨before, _, _, e, _⟩ => absurd e (by simp), nofun⟩
  | append_singleton above o ih =>
    cases o with
    | none => rw [inside_concat_none, openAfter_concat_none, ih]
    | some line =>
      rw [inside_concat_some, openAfter_concat_some, ih, goOn]
      -- a comment that goes on is left of the line, and else only one that starts here is open
      rcases e : (openAfter none above).filter fun c => c.column < line.column with _ | c
      · have ended : ¬∃ c ∈ openAfter none above, c.column < min line.column k := by
          rintro ⟨c, hc, less⟩
          have dropped := Option.filter_eq_none_iff.1 e c hc
          exact dropped (decide_eq_true (Nat.lt_min.1 less).1)
        rw [or_iff_right ended, e, Option.none_or]
        cases here : opens? line with
        | none => simp
        | some c => simp [column_of_opens? here]
      · obtain ⟨hc, less⟩ := Option.filter_eq_some_iff.1 e
        rw [decide_eq_true_eq] at less
        rw [e, hc, Option.some_or]
        simp only [Option.mem_some_iff, exists_eq_left']
        constructor
        · rintro (right | ⟨-, right⟩)
          · exact (Nat.lt_min.1 right).2
          · exact Nat.lt_trans less right
        · exact fun right => .inl (Nat.lt_min.2 ⟨less, right⟩)

/-- A line takes part in what follows by the comment that it leaves open. -/
theorem roles_cons (current : Option OpenComment) (line : Line) (rest : List (Option Line)) :
    ∃ r, roles current (some line :: rest) = r :: roles (goOn current line) rest := by
  rw [roles, goOn]
  cases current.filter fun c => c.column < line.column with
  | some c => exact ⟨_, rfl⟩
  | none => cases opens? line <;> exact ⟨_, rfl⟩

/-- What the lines below some others are told apart by is the comment that is open. -/
theorem roles_append (current : Option OpenComment) (above below : List (Option Line)) :
    ∃ rs, rs.length = above.length ∧
      roles current (above ++ below) = rs ++ roles (openAfter current above) below := by
  induction above generalizing current with
  | nil => exact ⟨[], rfl, rfl⟩
  | cons o above ih =>
    cases o with
    | none =>
      obtain ⟨rs, length, e⟩ := ih current
      exact ⟨.blank :: rs, by simp [length], by simp [roles, e, openAfter]⟩
    | some line =>
      obtain ⟨rs, length, e⟩ := ih (goOn current line)
      have next : openAfter current (some line :: above) = openAfter (goOn current line) above := by
        simp [openAfter]
      obtain ⟨r, here⟩ := roles_cons current line (above ++ below)
      exact ⟨r :: rs, by simp [length], by rw [List.cons_append, here, e, next]; rfl⟩

/-! ### The outcome -/

/-- What the lines of an outcome are written for. -/
inductive Written : List Role → List (List Char) → Prop
  | nil : Written [] []
  | blank {rs : List Role} {lines : List (List Char)} (rest : Written rs lines) :
    Written (.blank :: rs) ([] :: lines)
  | comment {rs : List Role} {lines : List (List Char)} {text : List Char}
    (rest : Written rs lines) : Written (.comment text :: rs) (text :: lines)
  | statement {rs : List Role} {lines : List (List Char)} {line : Line} (left : Nat)
    (rest : Written rs lines) :
    Written (.statement line :: rs)
      (((List.replicate left ['\x7d', ' ']).flatten ++
        braced line.content ((nextColumn? rs).any (line.column < ·))) :: lines)

/-- A statement that is not refused closes some blocks. -/
theorem statement_of_place {file : String} {first : Bool} {columns left : List Nat}
    {rs : List Role} {lines : List (List Char)}
    (h : place file first columns (.statement line :: rs) = .ok (lines, left)) :
    ∃ n columns' lines', lines = ((List.replicate n ['\x7d', ' ']).flatten ++
        braced line.content ((nextColumn? rs).any (line.column < ·))) :: lines' ∧
      place file false columns' rs = .ok (lines', left) := by
  rw [place] at h
  dsimp only at h
  split at h
  · split at h
    · cases h
    · cases e : place file false (line.column :: columns) rs with
      | error d =>
        rw [e] at h
        cases h
      | ok p =>
        rw [e] at h
        cases h
        exact ⟨0, _, _, by cases nextColumn? rs <;> rfl, e⟩
  · split at h
    · cases h
    · cases e : place file false (leave line.column columns).2 rs with
      | error d =>
        rw [e] at h
        cases h
      | ok p =>
        rw [e] at h
        cases h
        exact ⟨_, _, _, by cases nextColumn? rs <;> rfl, e⟩

/-- **Every line becomes one of the outcome** if the source is not refused. -/
theorem written_of_place {file : String} {first : Bool} {columns left : List Nat} {rs : List Role}
    {lines : List (List Char)} (h : place file first columns rs = .ok (lines, left)) :
    Written rs lines := by
  induction rs generalizing first columns lines with
  | nil =>
    cases h
    exact .nil
  | cons role rs ih =>
    cases role with
    | blank | comment =>
      rw [place] at h
      cases e : place file first columns rs with
      | error d =>
        rw [e] at h
        cases h
      | ok p =>
        rw [e] at h
        cases h
        constructor
        exact ih e
    | statement line =>
      obtain ⟨n, columns', lines', rfl, e⟩ := statement_of_place h
      exact .statement n (ih e)

/-- A source that is not refused becomes one line for each of its lines, and what closes the
blocks that are open at the end. -/
theorem written_of_toBraces {file text out : String} {log : Log}
    (h : (toBraces file text log).1 = .ok out) :
    ∃ lines closing, Written (roles none ((splitLines text.toList).mapIdx lineOf?)) lines ∧
      out = joinLines ((lines ++ closing).map String.ofList) := by
  rw [toBraces_fst, outcome] at h
  cases e : place file true [0] (roles none ((splitLines text.toList).mapIdx lineOf?)) with
  | error d =>
    rw [e] at h
    cases h
  | ok p =>
    rw [e] at h
    cases h
    exact ⟨_, _, written_of_place e, rfl⟩

/-- The lines of an outcome are cut where those of the source are. -/
theorem Written.exists_append {rs rs' : List Role} {lines : List (List Char)}
    (h : Written (rs ++ rs') lines) :
    ∃ before after, lines = before ++ after ∧ before.length = rs.length ∧ Written rs' after := by
  induction rs generalizing lines with
  | nil => exact ⟨[], lines, rfl, rfl, h⟩
  | cons role rs ih =>
    cases h with
    | blank rest | comment rest | statement _ rest =>
      obtain ⟨before, after, rfl, length, more⟩ := ih rest
      exact ⟨_ :: before, after, rfl, by simp [length], more⟩

end Indentation
end Stylesheet
