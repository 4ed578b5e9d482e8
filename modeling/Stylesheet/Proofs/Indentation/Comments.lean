/-
# Comments by indentation

A comment of the indented syntax is a line that starts with two slashes, or a slash and a star,
together with the lines below it that are blank or right of it, up to the last that is not blank
(`Indentation.CommentBlock`).  One with slashes stays a comment on each of its lines.  One with
a star is closed at its end unless its last line ends with a mark, while the brace syntax has it
end at the first mark (`Indentation.comment_of_block`): both are the same just if there is
no mark before the end and the slash of the last one is not the one at the start.
-/

import Stylesheet.Proofs.Grammar.Comments
import Stylesheet.Proofs.Indentation.FrontEnds
import Stylesheet.Proofs.Indentation.Roles

namespace Stylesheet
namespace Grammar

/-- Whether a rule, matched at a place in a file, reads the text up to another one. -/
def ReadsBetween {α : Type} (r : Rule α) (file : String) (before ts after : List Char) : Prop :=
  ∃ a, Gives (on r) (.after file before (ts ++ after)) (.ok a (.after file (before ++ ts) after))

/-- What a rule takes in every file it reads between two places of one. -/
theorem Takes.readsBetween {α : Type} {r : Rule α} {file : String} {ts after : List Char}
    {fits : α → Prop} (h : Takes file (on r) ts after fits) (before : List Char) :
    ReadsBetween r file before ts after := by
  obtain ⟨a, -, gives⟩ := h (.after file before (ts ++ after)) rfl rfl
  exact ⟨a, Cursor.skip_after file before ts after ▸ gives⟩

/-- What the rule for block comments reads is a block comment, and it reads all of them. -/
theorem readsBetween_loudComment {file : String} {before ts after : List Char} :
    ReadsBetween .loudComment file before ts after ↔ IsLoud ts := by
  rw [ReadsBetween, ← Cursor.skip_after]
  exact gives_loudComment_iff rfl

end Grammar

namespace Indentation

open Text Outline Grammar

variable {above body below : List (Option Line)} {start line : Line} {c : OpenComment}
  {ts text : List Char}

/-- A comment of some lines: it starts on one that goes on with none above it, and its other
lines are blank or right of that, up to the last that is not blank. -/
structure CommentBlock (above : List (Option Line)) (start : Line)
    (body below : List (Option Line)) : Prop where
  /-- It starts as a comment. -/
  opens : (opens? start).isSome
  /-- It is no part of another one. -/
  outside : ¬Inside above start.column
  /-- Its lines are right of the first. -/
  deeper : ∀ line ∈ body.reduceOption, start.column < line.column
  /-- The last one is not blank. -/
  last : ∀ o ∈ body.getLast?, o.isSome
  /-- What follows is not right of the first line. -/
  past : ∀ next ∈ below.reduceOption.head?, next.column ≤ start.column

/-- The text of a line, which has none if it is blank. -/
def contentOf (o : Option Line) : List Char :=
  o.elim [] Line.content

/-- What the lines of a comment are written as: the last one, which is `text` or the last of
those after it, is closed. -/
def commentLines (c : OpenComment) (text : List Char) : List (Option Line) → List (List Char)
  | [] => [closed c text]
  | o :: body => text :: commentLines c (o.elim [] fun line => continued c line.content) body

/-- The text of a comment before it is closed. -/
def commentText (start : Line) (body : List (Option Line)) : List Char :=
  ['\n'].intercalate (start.content :: body.map contentOf)

/-- Whether a text that starts with a slash and a star has a mark of the end at most where it
ends, and that mark does not have its star in common with the start. -/
def MarkedAtEnd (text : List Char) : Prop :=
  text ≠ ['/', '*', '/'] ∧
    ∀ inner post, text = ['/', '*'] ++ inner ++ ['*', '/'] ++ post → post = []

/-! ### The lines of a comment -/

/-- A comment goes on if a line that is right of it follows. -/
theorem goesOn_append (deeper : ∀ line ∈ body.reduceOption, c.column < line.column)
    (some : body ≠ []) (last : ∀ o ∈ body.getLast?, o.isSome) :
    goesOn c (body ++ below) = true := by
  induction body with
  | nil => exact absurd rfl some
  | cons o body ih =>
    cases o with
    | some line => simpa [goesOn] using deeper line (by simp)
    | none =>
      cases body with
      | nil => simpa using last none (by simp)
      | cons o body => exact ih (by simpa using deeper) (by simp) (by simpa using last)

/-- A comment does not go on if what follows is not right of it. -/
theorem goesOn_eq_false (past : ∀ next ∈ below.reduceOption.head?, next.column ≤ c.column) :
    goesOn c below = false := by
  induction below with
  | nil => rfl
  | cons o below ih =>
    cases o with
    | none => exact ih past
    | some line => simpa [goesOn] using past line rfl

/-- What becomes of the lines of a comment from one of them on, and of those below it. -/
theorem Written.comment_lines {lines : List (List Char)}
    (h : Written (commentLine c text (body ++ below) :: roles (some c) (body ++ below)) lines)
    (deeper : ∀ line ∈ body.reduceOption, c.column < line.column)
    (last : ∀ o ∈ body.getLast?, o.isSome)
    (past : ∀ next ∈ below.reduceOption.head?, next.column ≤ c.column) :
    ∃ after, lines = commentLines c text body ++ after := by
  induction body generalizing text lines with
  | nil =>
    rw [List.nil_append, commentLine, goesOn_eq_false past] at h
    cases h with
    | comment rest => exact ⟨_, rfl⟩
  | cons o body ih =>
    rw [commentLine, goesOn_append deeper (by simp) last] at h
    cases h with
    | comment rest =>
      have last' : ∀ o ∈ body.getLast?, o.isSome := by
        cases body with
        | nil => simp
        | cons o body => simpa using last
      cases o with
      | some line =>
        have deeper' : ∀ line ∈ body.reduceOption, c.column < line.column :=
          fun line hl => deeper line (by simp [hl])
        have here : roles (some c) (some line :: (body ++ below)) =
            commentLine c (continued c line.content) (body ++ below) ::
              roles (some c) (body ++ below) := by
          rw [roles, Option.filter_some, if_pos (by simpa using deeper line (by simp))]
        rw [List.cons_append, here] at rest
        obtain ⟨after, rfl⟩ := ih rest deeper' last'
        exact ⟨after, rfl⟩
      | none =>
        have deeper' : ∀ line ∈ body.reduceOption, c.column < line.column := by
          simpa using deeper
        have some : body ≠ [] := by
          rintro rfl
          simpa using last none (by simp)
        -- a blank line is a line of the comment without a text, since that goes on below
        have here : commentLine c [] (body ++ below) = .comment [] := by
          rw [commentLine, goesOn_append deeper' some last']
          rfl
        cases rest with
        | @blank _ lines rest =>
          have rest' : Written (commentLine c [] (body ++ below) :: roles (Option.some c)
              (body ++ below)) ([] :: lines) := by
            rw [here]
            exact .comment rest
          obtain ⟨after, e⟩ := ih rest' deeper' last'
          exact ⟨after, congrArg (text :: ·) e⟩

/-- A comment is written on as many lines as it has. -/
theorem length_commentLines (c : OpenComment) (text : List Char) (body : List (Option Line)) :
    (commentLines c text body).length = body.length + 1 := by
  induction body generalizing text with
  | nil => rfl
  | cons o body ih => rw [commentLines, List.length_cons, ih, List.length_cons]

/-- The lines of a comment with slashes. -/
theorem commentLines_silent (silent : c.loud = false) :
    commentLines c text body =
      text :: body.map (·.elim [] fun line => ['/', '/', ' '] ++ line.content) := by
  have same (text : List Char) : closed c text = text := by simp [closed, silent]
  induction body generalizing text with
  | nil => rw [commentLines, same, List.map_nil]
  | cons o body ih =>
    rw [commentLines, ih, List.map_cons]
    cases o <;> simp [continued, silent]

/-- Only the last line of a text tells whether it is to be closed. -/
theorem closed_append_break (c : OpenComment) (ts text : List Char) :
    closed c (ts ++ '\n' :: text) = ts ++ '\n' :: closed c text := by
  have last : startsWith (ts ++ '\n' :: text).reverse ['/', '*'] =
      startsWith text.reverse ['/', '*'] := by
    rw [List.reverse_append, List.reverse_cons, List.append_assoc]
    rcases text.reverse with _ | ⟨x, _ | ⟨y, cs⟩⟩ <;> simp [startsWith, List.isPrefixOf]
  rw [closed, closed, last]
  split <;> simp

/-- The lines of a comment with a star are its text, closed at the end. -/
theorem textOf_commentLines (loud : c.loud = true) :
    textOf (commentLines c text body) =
      closed c (['\n'].intercalate (text :: body.map contentOf)) ++ ['\n'] := by
  induction body generalizing text with
  | nil => simp [commentLines, textOf]
  | cons o body ih =>
    have next : (o.elim [] fun line => continued c line.content) = contentOf o := by
      cases o <;> simp [continued, loud, contentOf]
    rw [commentLines, textOf_cons, ih, next, List.map_cons, List.intercalate_cons_cons]
    simp only [List.append_assoc, List.cons_append, List.nil_append, closed_append_break]

/-! ### Where the comment is closed -/

/-- A text that ends with a mark. -/
theorem closed_of_marked (marked : ['*', '/'] <:+ ts) : closed c ts = ts := by
  obtain ⟨us, rfl⟩ := marked
  simp [closed, startsWith]

/-- A block comment without a mark at its end gets one. -/
theorem closed_of_unmarked (loud : c.loud = true) (unmarked : ¬['*', '/'] <:+ ts) :
    closed c ts = ts ++ [' ', '*', '/'] := by
  have other : startsWith ts.reverse ['/', '*'] = false := by
    rw [startsWith, ← Bool.not_eq_true, List.isPrefixOf_iff_prefix, ← List.reverse_suffix]
    simpa using unmarked
  simp [closed, loud, other]

/-- A text with a mark at its end is a comment if there is none before that. -/
theorem isLoud_iff_of_marked (marked : ['*', '/'] <:+ ['/', '*'] ++ ts) :
    IsLoud (['/', '*'] ++ ts) ↔ MarkedAtEnd (['/', '*'] ++ ts) := by
  constructor
  · rintro ⟨inner, e, first⟩
    have inside : ts = inner ++ ['*', '/'] := by simpa using e
    subst inside
    refine ⟨fun short => ?_, fun inner' post e => first inner' post (by simpa using e)⟩
    simpa using congrArg List.length short
  · rintro ⟨other, first⟩
    obtain here | here | ⟨inner, rfl⟩ :=
      (List.suffix_cons_iff.1 marked).imp_right List.suffix_cons_iff.1
    · cases here
    · cases here
      exact absurd rfl other
    · exact ⟨inner, by simp, fun pre post e => first pre post (by simp [e])⟩

/-- What ends otherwise has its marks before the end. -/
theorem marked_before {us pre post : List Char} {x : Char} (other : x ≠ '/')
    (e : us ++ [x] = pre ++ ['*', '/'] ++ post) : ∃ post, us = pre ++ ['*', '/'] ++ post := by
  rcases List.eq_nil_or_concat' post with rfl | ⟨post, z, rfl⟩
  · have ends : us ++ [x] = pre ++ ['*'] ++ ['/'] := by simpa using e
    exact absurd (List.singleton_inj.1 (List.append_inj' ends rfl).2) other
  · have ends : us ++ [x] = pre ++ ['*', '/'] ++ post ++ [z] := by simpa using e
    exact ⟨post, (List.append_inj' ends rfl).1⟩

/-- A text without one is a comment with one if there is none in it. -/
theorem isLoud_iff_of_unmarked (unmarked : ¬['*', '/'] <:+ ['/', '*'] ++ ts) :
    IsLoud (['/', '*'] ++ ts ++ [' ', '*', '/']) ↔ MarkedAtEnd (['/', '*'] ++ ts) := by
  constructor
  · rintro ⟨inner, e, first⟩
    have inside : ts ++ [' '] = inner := by
      have e : ts ++ [' '] ++ ['*', '/'] = inner ++ ['*', '/'] := by simpa using e
      exact List.append_cancel_right e
    subst inside
    refine ⟨fun short => unmarked (short ▸ ⟨['/'], rfl⟩), fun inner post e => ?_⟩
    -- a mark in the text comes before the one that is added
    have inside : ts = inner ++ ['*', '/'] ++ post := by simpa using e
    have none := first inner (post ++ [' ', '*', '/']) (by simp [inside])
    exact (List.append_eq_nil_iff.1 none).1
  · rintro ⟨-, first⟩
    refine ⟨ts ++ [' '], by simp, fun pre post e => ?_⟩
    by_contra some
    obtain ⟨post, z, rfl⟩ := (List.eq_nil_or_concat' post).resolve_left some
    have e : ts ++ [' ', '*'] ++ ['/'] = pre ++ ['*', '/'] ++ post ++ [z] := by simpa using e
    have e : ts ++ [' '] ++ ['*'] = pre ++ ['*', '/'] ++ post := by
      simpa using (List.append_inj' e rfl).1
    obtain ⟨post, e⟩ := marked_before (by decide) e
    obtain ⟨post, inside⟩ := marked_before (by decide) e
    have none := first pre post (by simp [inside])
    exact unmarked ⟨['/', '*'] ++ pre, by simp [inside, none]⟩

/-- The text of a comment starts with its first line. -/
theorem prefix_commentText (start : Line) (body : List (Option Line)) :
    start.content <+: commentText start body := by
  cases body with
  | nil => simp [commentText]
  | cons o body =>
    rw [commentText, List.map_cons, List.intercalate_cons_cons, List.append_assoc]
    exact List.prefix_append _ _

/-- **When a comment ends where it is closed.** -/
theorem isLoud_closed_iff (loud : c.loud = true) (starts : ['/', '*'] <+: ts) :
    IsLoud (closed c ts) ↔ MarkedAtEnd ts := by
  obtain ⟨us, rfl⟩ := starts
  by_cases marked : ['*', '/'] <:+ ['/', '*'] ++ us
  · rw [closed_of_marked marked]
    exact isLoud_iff_of_marked marked
  · rw [closed_of_unmarked loud marked]
    exact isLoud_iff_of_unmarked marked

/-! ### Comments in the outcome -/

/-- A comment that starts with two slashes is a line comment. -/
theorem silent_of_opens? (h : opens? start = some c) (slashes : ['/', '/'] <+: start.content) :
    c.loud = false := by
  rw [opens?, startsWith, if_pos (List.isPrefixOf_iff_prefix.2 slashes)] at h
  cases h
  rfl

/-- A comment that starts with a slash and a star is a block comment. -/
theorem loud_of_opens? (h : opens? start = some c) (star : ['/', '*'] <+: start.content) :
    c.loud = true := by
  obtain ⟨us, e⟩ := star
  rw [opens?, startsWith, startsWith, ← e] at h
  cases h
  rfl

/-- A line that is no part of a comment above starts one. -/
theorem CommentBlock.roles_eq (h : CommentBlock above start body below) :
    ∃ c, opens? start = some c ∧
      roles (openAfter none above) (some start :: (body ++ below)) =
        commentLine c start.content (body ++ below) :: roles (some c) (body ++ below) := by
  obtain ⟨c, hc⟩ := Option.isSome_iff_exists.1 h.opens
  refine ⟨c, hc, ?_⟩
  have none : (openAfter none above).filter (fun c => c.column < start.column) = none := by
    rw [Option.filter_eq_none_iff]
    intro c hc less
    exact h.outside (inside_iff.2 ⟨c, hc, of_decide_eq_true less⟩)
  rw [roles, none, hc]

/-- No line has a line feed in it. -/
theorem feed_notMem_of_splitLines (cs : List Char) : ∀ line ∈ splitLines cs, '\n' ∉ line := by
  fun_induction splitLines cs with
  | case1 => simp
  | case2 rest ih | case3 c rest _ _ ih => simpa using ih
  | case4 c rest _ unbroken none ih =>
    have other : '\n' ≠ c := by
      rintro rfl
      exact unbroken rfl
    simpa using other
  | case5 c rest _ unbroken line lines found ih =>
    have other : '\n' ≠ c := by
      rintro rfl
      exact unbroken rfl
    rw [found, List.forall_mem_cons] at ih
    exact List.forall_mem_cons.2 ⟨by simp [other, ih.1], ih.2⟩

/-- Trimming adds no characters. -/
theorem mem_of_mem_trimChars {x : Char} {cs : List Char} (h : x ∈ trimChars cs) : x ∈ cs := by
  have h : x ∈ cs.dropWhile isBlank := by
    simpa using List.dropWhile_subset isBlank (List.mem_reverse.1 h)
  exact List.dropWhile_subset isBlank h

/-- No line of a source has a line break in it. -/
theorem feed_notMem_content {cs : List Char} (h : some line ∈ (splitLines cs).mapIdx lineOf?) :
    '\n' ∉ line.content := by
  obtain ⟨i, less, e⟩ := List.mem_mapIdx.1 h
  simp only [lineOf?] at e
  split at e
  · cases e
  · cases e
    exact fun feed =>
      feed_notMem_of_splitLines cs _ (List.getElem_mem less) (mem_of_mem_trimChars feed)

/-- Every line of a comment with slashes is one. -/
theorem silent_of_mem (starts : ['/', '/'] <+: start.content)
    (unbroken : ∀ line, some line ∈ some start :: body → '\n' ∉ line.content)
    (h : ts ∈ start.content :: body.map (·.elim [] fun line => ['/', '/', ' '] ++ line.content)) :
    ts = [] ∨ ∃ us, ts = ['/', '/'] ++ us ∧ '\n' ∉ us := by
  rcases List.mem_cons.1 h with rfl | h
  · obtain ⟨us, e⟩ := starts
    have here := unbroken start List.mem_cons_self
    rw [← e] at here
    exact .inr ⟨us, e.symm, fun feed => here (List.mem_append_right _ feed)⟩
  · obtain ⟨o, ho, rfl⟩ := List.mem_map.1 h
    cases o with
    | none => exact .inl rfl
    | some line =>
      have here := unbroken line (List.mem_cons_of_mem _ ho)
      exact .inr ⟨' ' :: line.content, rfl, by simpa using here⟩

/-- **A comment of the indented syntax becomes comments.** -/
theorem comment_of_block {file text out : String} {log : Log}
    (ok : (toBraces file text log).1 = .ok out)
    (lined : (splitLines text.toList).mapIdx lineOf? = above ++ some start :: (body ++ below))
    (block : CommentBlock above start body below) :
    ∃ before comment after : List (List Char),
      out.toList = textOf (before ++ comment ++ after) ∧
      before.length = above.length ∧ comment.length = body.length + 1 ∧
      (['/', '/'] <+: start.content →
        comment = start.content :: body.map (·.elim [] fun line => "// ".toList ++ line.content) ∧
        ∀ pre line post, comment = pre ++ line :: post → line = [] ∨ ['/', '/'] <+: line ∧
          ReadsBetween .silentComment file (textOf (before ++ pre)) line
            ('\n' :: textOf (post ++ after))) ∧
      (['/', '*'] <+: start.content →
        ∃ written, textOf comment = written ++ ['\n'] ∧
          (ReadsBetween .loudComment file (textOf before) written ('\n' :: textOf after) ↔
            MarkedAtEnd (commentText start body))) := by
  obtain ⟨lines, closing, written, rfl⟩ := written_of_toBraces ok
  rw [lined] at written
  obtain ⟨rs, length, e⟩ := roles_append none above (some start :: (body ++ below))
  obtain ⟨c, opens, here⟩ := block.roles_eq
  rw [e, here] at written
  obtain ⟨before, lines, rfl, length', written⟩ := written.exists_append
  have column : c.column = start.column := column_of_opens? opens
  obtain ⟨after, rfl⟩ := written.comment_lines (column ▸ block.deeper) block.last
    (column ▸ block.past)
  refine ⟨before, commentLines c start.content body, after ++ closing, ?_, length'.trans length,
    length_commentLines _ _ _, ?_, ?_⟩
  · have some :
        (before ++ (commentLines c start.content body ++ after) ++ closing).isEmpty = false := by
      cases body <;> simp [commentLines]
    rw [toList_joinLines, some]
    simp
  · intro slashes
    have silent := silent_of_opens? opens slashes
    have unbroken : ∀ line, some line ∈ some start :: body → '\n' ∉ line.content := by
      intro line hl
      have here : some line ∈ (splitLines text.toList).mapIdx lineOf? := by
        rw [lined, ← List.cons_append]
        exact List.mem_append_right _ (List.mem_append_left _ hl)
      exact feed_notMem_content here
    rw [commentLines_silent silent]
    refine ⟨rfl, fun pre line post e => ?_⟩
    have mem : line ∈ pre ++ line :: post := List.mem_append_right _ List.mem_cons_self
    rcases silent_of_mem slashes unbroken (e ▸ mem) with rfl | ⟨us, rfl, feed⟩
    · exact .inl rfl
    · exact .inr ⟨⟨us, rfl⟩, (takes_silentComment feed _).readsBetween _⟩
  · intro star
    have loud := loud_of_opens? opens star
    refine ⟨_, textOf_commentLines loud, ?_⟩
    rw [readsBetween_loudComment]
    exact isLoud_closed_iff loud (star.trans (prefix_commentText start body))

/-- A comment of two lines with a statement after it, which is closed behind its last line. -/
theorem comment_of_block_closed :
    ∃ comment after : List (List Char),
      "/* a\nb */\nc: d;\n".toList = textOf (comment ++ after) ∧ comment.length = 2 ∧
        ∃ written, textOf comment = written ++ ['\n'] ∧
          ReadsBetween .loudComment "s" [] written ('\n' :: textOf after) := by
  have ok : (toBraces "s" "/* a\n   b\nc: d\n" {}).1 = .ok "/* a\nb */\nc: d;\n" := by
    decide +kernel
  have block : CommentBlock [] ⟨0, 0, "/* a".toList⟩ [some ⟨1, 3, ['b']⟩]
      [some ⟨2, 0, "c: d".toList⟩] :=
    ⟨rfl, inside_iff.not.2 (by simp [openAfter]), by simp, by simp, by simp⟩
  have marked : MarkedAtEnd (commentText ⟨0, 0, "/* a".toList⟩ [some ⟨1, 3, ['b']⟩]) := by
    refine ⟨by decide, fun inner post e => ?_⟩
    have slashes := congrArg (List.count '/') e
    simp [commentText, contentOf] at slashes
  obtain ⟨before, comment, after, written, none, length, -, loud⟩ := comment_of_block ok rfl block
  obtain ⟨text, e, reads⟩ := loud ⟨" a".toList, rfl⟩
  cases List.length_eq_zero_iff.1 none
  exact ⟨comment, after, written, length, text, e, reads.2 marked⟩

/-- The slash of the mark may be the one of the start: the comment is not closed there and goes
on over the statement after it. -/
theorem statement_in_comment :
    (toBraces "s" "/*/\n@charset x\n/* d */\n" {}).1 = .ok "/*/\n@charset x;\n/* d */\n" ∧
      CommentBlock [] ⟨0, 0, "/*/".toList⟩ []
        [some ⟨1, 0, "@charset x".toList⟩, some ⟨2, 0, "/* d */".toList⟩] ∧
      ¬ReadsBetween .loudComment "s" [] "/*/".toList "\n@charset x;\n/* d */\n".toList ∧
      ReadsBetween .loudComment "s" [] "/*/\n@charset x;\n/* d */".toList ['\n'] := by
  refine ⟨by decide +kernel,
    ⟨rfl, inside_iff.not.2 (by simp [openAfter]), by simp, by simp, by simp⟩, ?_, ?_⟩
  · rw [readsBetween_loudComment]
    rintro ⟨inner, e, -⟩
    simpa using congrArg List.length e
  · rw [readsBetween_loudComment]
    refine ⟨"/\n@charset x;\n/* d ".toList, by decide, ?_⟩
    simp [endsFirst_cons, endsFirst_nil]

end Indentation
end Stylesheet
