/-
# Both syntaxes

What is written of an outline with indentation becomes what is written of it with braces
(`Outline.braces_of_indents`), so both are read as the same tree but for the lines
(`Document.readIn_agrees`).  The lines of the outcome are those of the source and the
statements in them keep their order; only the place of a closing brace is free, which is why
`Outline.Braces` allows any space.
-/

import Stylesheet.Proofs.Indentation.Placing
import Stylesheet.Proofs.Stages

namespace Stylesheet

open Simple (isGap_nil isGap_blank isGap_break)

/-- The text of some lines.  A line end after the last one may be missing. -/
inductive Text.Lines : List (List Char) → List Char → Prop
  | nil : Text.Lines [] []
  | last {line : List Char} (some : line ≠ []) : Text.Lines [line] line
  | cons {line : List Char} {lines : List (List Char)} {text : List Char}
    (more : Text.Lines lines text) : Text.Lines (line :: lines) (line ++ '\n' :: text)

/-- What is no line break stands at the start of the first line. -/
theorem Text.splitLines_cons {x : Char} {cs line : List Char} {lines : List (List Char)}
    (unbroken : Text.isLineBreak x = false) (rest : Text.splitLines cs = line :: lines) :
    Text.splitLines (x :: cs) = (x :: line) :: lines := by
  unfold Text.splitLines
  split
  · simp_all
  · next eq =>
    cases eq
    cases unbroken
  · next eq =>
    cases eq
    rw [if_neg (by simp [unbroken]), rest]

/-- A line with its break. -/
theorem Text.splitLines_append_break {line : List Char} (text : List Char)
    (unbroken : ∀ x ∈ line, Text.isLineBreak x = false) :
    Text.splitLines (line ++ '\n' :: text) = line :: Text.splitLines text := by
  induction line with
  | nil =>
    have isBreak : Text.isLineBreak '\n' = true := rfl
    simp [Text.splitLines, isBreak]
  | cons x line ih =>
    rw [List.forall_mem_cons] at unbroken
    exact Text.splitLines_cons unbroken.1 (ih unbroken.2)

/-- A last line without a break. -/
theorem Text.splitLines_unbroken {line : List Char} (some : line ≠ [])
    (unbroken : ∀ x ∈ line, Text.isLineBreak x = false) : Text.splitLines line = [line] := by
  induction line with
  | nil => exact absurd rfl some
  | cons x line ih =>
    rw [List.forall_mem_cons] at unbroken
    cases line with
    | nil =>
      have other : x ≠ '\r' := by
        rintro rfl
        cases unbroken.1
      simp [Text.splitLines, unbroken.1]
    | cons y line => exact Text.splitLines_cons unbroken.1 (ih (by simp) unbroken.2)

/-- **A text is cut into its lines** if no line has a break in it. -/
theorem Text.splitLines_of_lines {lines : List (List Char)} {text : List Char}
    (h : Text.Lines lines text)
    (unbroken : ∀ line ∈ lines, ∀ x ∈ line, Text.isLineBreak x = false) :
    Text.splitLines text = lines := by
  induction h with
  | nil => rfl
  | last some => exact Text.splitLines_unbroken some (unbroken _ List.mem_cons_self)
  | cons more ih =>
    rw [List.forall_mem_cons] at unbroken
    rw [Text.splitLines_append_break _ unbroken.1, ih unbroken.2]

namespace Outline

open Indentation

variable {c : Nat} {os : List Outline} {lines : List (List Char)} {ls : List Line}

/-! ### The lines of a source -/

/-- No line of an outline has a break in it. -/
theorem Indents.unbroken (h : Indents c os lines) :
    ∀ line ∈ lines, ∀ x ∈ line, Text.isLineBreak x = false := by
  induction h with
  | nil => simp
  | cons column blank form deeper body rest ihBody ihRest =>
    refine List.forall_mem_cons.2 ⟨fun x hx => ?_, List.forall_mem_append.2 ⟨ihBody, ihRest⟩⟩
    rcases List.mem_append.1 hx with hx | hx
    · rcases blank x hx with rfl | rfl <;> rfl
    · exact (show ∀ x ∈ alphabet, Text.isLineBreak x = false by decide) x
        (IsForm.mem_alphabet form hx)

/-- A line of a form, with its column. -/
theorem IsForm.lineOf? {o : Outline} {text blanks : List Char} (form : o.IsForm text)
    (blank : ∀ x ∈ blanks, x = ' ' ∨ x = '\t') (number : Nat) :
    lineOf? number (blanks ++ text) =
      some { number, column := blanks.length, content := text } := by
  have blank : ∀ x ∈ blanks, Text.isBlank x = true := fun x hx => by
    rcases blank x hx with rfl | rfl <;> rfl
  have nonempty : text ≠ [] := by
    obtain ⟨x, cs, rfl, -⟩ := form.exists_cons
    simp
  simp [Indentation.lineOf?, form.trim blank, form.takeWhile blank, nonempty]

/-- The lines on which an outline is written are where it stands. -/
theorem Indents.stands (h : Indents c os lines) (before : Nat) :
    ∃ ls, lines.mapIdx (fun i => lineOf? (i + before)) = ls.map some ∧ Stands c os ls := by
  induction h generalizing before with
  | nil => exact ⟨[], rfl, .nil⟩
  | @cons c d o os blanks text inner more column blank form deeper body rest ihBody ihRest =>
    obtain ⟨ls, e, standing⟩ := ihBody (1 + before)
    obtain ⟨ls', e', standing'⟩ := ihRest (inner.length + 1 + before)
    refine ⟨{ number := 0 + before, column := blanks.length, content := text } :: (ls ++ ls'), ?_,
      .cons column form deeper standing standing'⟩
    rw [List.mapIdx_cons, List.mapIdx_append, IsForm.lineOf? form blank, List.map_cons,
      List.map_append, ← e, ← e']
    simp only [Nat.add_assoc]

/-- No line is a comment. -/
theorem Stands.roles (h : Stands c os ls) : roles none (ls.map some) = ls.map .statement := by
  have silent : ∀ line ∈ ls, opens? line = none := by
    induction h with
    | nil => simp
    | cons column form deeper body rest ihBody ihRest =>
      rw [List.forall_mem_cons, List.forall_mem_append]
      exact ⟨form.opens?_eq_none _ _, ihBody, ihRest⟩
  clear h
  induction ls with
  | nil => rfl
  | cons line ls ih =>
    rw [List.forall_mem_cons] at silent
    rw [List.map_cons, Indentation.roles, silent.1, ih silent.2]
    rfl

/-! ### The text in the brace syntax -/

/-- The lines joined by breaks, with a break at the end, are their text. -/
theorem intercalate_append_break {out : List (List Char)} (some : out ≠ []) :
    ['\n'].intercalate out ++ ['\n'] = textOf out := by
  induction out with
  | nil => exact absurd rfl some
  | cons line out ih =>
    cases out with
    | nil => simp [textOf]
    | cons line' out =>
      rw [List.intercalate_cons_cons, List.append_assoc, List.append_assoc, ih (by simp),
        textOf_cons line, List.append_assoc]

/-- The text of the outcome, which has a line end also if it has no lines. -/
theorem toList_joinLines (out : List (List Char)) :
    (joinLines (out.map String.ofList)).toList =
      textOf out ++ if out.isEmpty then ['\n'] else [] := by
  have joined : (joinLines (out.map String.ofList)).toList =
      ['\n'].intercalate out ++ ['\n'] := by
    simp [joinLines, String.toList_intercalate, Function.comp_def]
  rw [joined]
  cases out with
  | nil => rfl
  | cons line out => simpa using intercalate_append_break (List.cons_ne_nil line out)

/-- **What is written with indentation becomes what is written with braces.** -/
theorem braces_of_indents (file : String) (h : Indents 0 os lines) :
    ∃ out, outcome file lines = .ok out ∧
      Braces os (joinLines (out.map String.ofList)).toList := by
  obtain ⟨ls, numbered, standing⟩ := h.stands 0
  obtain ⟨out, left, placed⟩ := standing.placed file [] [] (by simp)
  have whole : place file true [0] (ls.map .statement) = .ok (out, left ++ [0]) := by
    have whole := placed.place [] (by simp [nextColumn?])
    rw [List.append_nil, List.nil_append] at whole
    rw [standing.place_first, whole]
    simp [place, Except.map]
  have lined : outcome file lines =
      .ok (out ++ if left.length = 0 then [] else [List.replicate left.length '\x7d']) := by
    have numbered : lines.mapIdx lineOf? = ls.map some := numbered
    simp [outcome, numbered, standing.roles, whole, bind, Except.bind, pure, Except.pure]
  refine ⟨_, lined, ?_⟩
  -- The last line closes what is left, and the text is one of space if there are no lines.
  obtain ⟨closing, closes, e⟩ : ∃ closing, Closes left.length closing ∧
      (joinLines ((out ++ if left.length = 0 then []
        else [List.replicate left.length '\x7d']).map String.ofList)).toList =
        textOf out ++ closing := by
    rw [toList_joinLines, textOf_append, List.append_assoc]
    refine ⟨_, ?_, rfl⟩
    by_cases none : left.length = 0
    · have gap : Simple.IsGap (if out.isEmpty then ['\n'] else []) := by
        split
        · exact isGap_break
        · exact isGap_nil
      simpa [none, textOf] using Closes.gap gap
    · simpa [none, textOf] using (closes_replicate left.length).append_gap isGap_break
  obtain ⟨opening, whole, ⟨hg⟩, written, e'⟩ := placed.written closes (.nil isGap_nil)
  rw [List.append_nil] at written e'
  rw [e, e']
  exact .gap hg written

end Outline

/-- What is parsed is read, and a note is left. -/
theorem Document.read_of_parse {file text : String} {tree : Node}
    (h : Document.parse file text = .ok tree) (log : Log) :
    ∃ notes, Document.read file text log = (.ok tree, notes) := by
  unfold Document.read
  rw [h]
  exact ⟨_, rfl⟩

/-- What is translated is read as what it becomes. -/
theorem Document.readIn_of_outcome {file text : String} {out : List (List Char)} {tree : Node}
    (translated : Indentation.outcome file (Text.splitLines text.toList) = .ok out)
    (parsed : Document.parse file (Indentation.joinLines (out.map String.ofList)) = .ok tree)
    (log : Log) : ∃ notes, Document.readIn .indented file text log = (.ok tree, notes) := by
  have toBraces : ∃ notes, Indentation.toBraces file text log =
      (.ok (Indentation.joinLines (out.map String.ofList)), notes) := by
    unfold Indentation.toBraces
    rw [translated]
    exact ⟨_, rfl⟩
  obtain ⟨notes, run⟩ := toBraces
  rw [Document.readIn, Logged.run_bind, run]
  exact Document.read_of_parse parsed notes

/-- **An outline reads as the same tree in both syntaxes**, but for the lines: however its
statements are indented and whichever of them are in short form, and whatever space is between
those with braces. -/
theorem Document.readIn_agrees (file : String) {os : List Outline} {lines : List (List Char)}
    {indented braces : String} (lined : Text.Lines lines indented.toList)
    (indents : Outline.Indents 0 os lines) (written : Outline.Braces os braces.toList)
    (log log' : Log) :
    ∃ tree tree' notes notes',
      Document.readIn .indented file indented log = (.ok tree, notes) ∧
      Document.readIn .braces file braces log' = (.ok tree', notes') ∧
      tree.unplaced = tree'.unplaced := by
  obtain ⟨out, translated, written'⟩ := Outline.braces_of_indents file indents
  obtain ⟨children, parsed, e⟩ := Outline.parse_of_braces file written'
  obtain ⟨children', parsed', e'⟩ := Outline.parse_of_braces file written
  have source := Text.splitLines_of_lines lined indents.unbroken
  obtain ⟨notes, run⟩ := Document.readIn_of_outcome (source ▸ translated) parsed log
  obtain ⟨notes', run'⟩ := Document.read_of_parse parsed' log'
  exact ⟨_, _, notes, notes', run, run', by rw [Node.unplaced, Node.unplaced, e, e']⟩

open Outline

/-- A rule with a buffer and an inclusion inside it, then a flush and the definition of a mixin:
two blocks are left at once, and all but the rule and the declaration are in short form. -/
theorem Document.readIn_agrees_on_dedent :
    ∃ tree tree' notes notes',
      Document.readIn .indented "" "nav a\n  b->\n    c: d\n<-b\n=m\n  +n" #[] =
        (.ok tree, notes) ∧
      Document.readIn .braces ""
        "nav a \x7b @buffer b \x7b c: d; \x7d \x7d @flush b; @mixin m \x7b @include n; \x7d" #[] =
        (.ok tree', notes') ∧
      tree.unplaced = tree'.unplaced := by
  let nav : Word := ⟨"nav".toList, by simp, by decide⟩
  let letter (x : Char) (h : x.isLower = true) : Word := ⟨[x], by simp, by simpa using h⟩
  let a := letter 'a' rfl
  let b := letter 'b' rfl
  let c := letter 'c' rfl
  let d := letter 'd' rfl
  let m := letter 'm' rfl
  let n := letter 'n' rfl
  let buffer := Outline.buffer b [.declaration c d]
  let rule := Outline.rule nav [a] [buffer]
  let mixin := Outline.mixin m [.inclusion n]
  have indents : Indents 0 [rule, .flush b, mixin] _ :=
    @Indents.cons 0 2 _ _ [] "nav a".toList _ _ rfl (by simp) (.inl rfl) (by decide)
      (@Indents.cons 2 4 _ _ "  ".toList "b->".toList _ _ rfl (by decide) (.inr rfl) (by decide)
        (@Indents.cons 4 5 _ _ "    ".toList "c: d".toList _ _ rfl (by decide) (.inl rfl)
          (by decide) .nil .nil)
        .nil)
      (@Indents.cons 0 1 _ _ [] "<-b".toList _ _ rfl (by simp) (.inr rfl) (by decide) .nil
        (@Indents.cons 0 2 _ _ [] "=m".toList _ _ rfl (by simp) (.inr rfl) (by decide)
          (@Indents.cons 2 3 _ _ "  ".toList "+n".toList _ _ rfl (by decide) (.inr rfl) (by decide)
            .nil .nil)
          .nil))
  have inBuffer : Braces buffer.body " c: d; ".toList := .leaf isGap_blank rfl (.nil isGap_blank)
  have inRule : Braces rule.body " @buffer b \x7b c: d; \x7d ".toList :=
    .block isGap_blank rfl inBuffer (.nil isGap_blank)
  have inMixin : Braces mixin.body " @include n; ".toList :=
    .leaf isGap_blank rfl (.nil isGap_blank)
  have behind : Braces [.flush b, mixin] " @flush b; @mixin m \x7b @include n; \x7d".toList :=
    .leaf isGap_blank rfl (.block isGap_blank rfl inMixin (.nil isGap_nil))
  refine Document.readIn_agrees "" ?lined indents ?written #[] #[]
  case lined => exact .cons (.cons (.cons (.cons (.cons (.last (by simp))))))
  case written => exact .block isGap_nil rfl inRule behind

end Stylesheet
