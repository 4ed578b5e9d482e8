/-
# The lines of an outline

A statement of an outline is written on a line in its long or in its short form
(`Outline.IsForm`).  Either is turned into the long form (`Outline.IsForm.longForm_eq`), and a
statement without a body gets the end that it has with braces (`Outline.ending_long`).

What is used of a form are its characters, of which the first and the last are no blanks, no
form starts a comment and none breaks the line.
-/

import Stylesheet.Indentation
import Stylesheet.Proofs.Indentation.Outline

namespace Stylesheet
namespace Outline

open Grammar (IsWord letters)
open Indentation

/-- What a form starts with. -/
def firsts : List Char :=
  '@' :: '<' :: '=' :: '+' :: letters

/-- What a form ends with. -/
def lasts : List Char :=
  '>' :: letters

/-- What is in the lines of an outline. -/
def alphabet : List Char :=
  '\t' :: ' ' :: '-' :: ':' :: '>' :: firsts

variable {o : Outline} {text cs : List Char} {x : Char}

/-! ### Words -/

/-- A word is made of small letters. -/
theorem Word.mem_letters (w : Word) (hx : x ∈ w.val) : x ∈ letters :=
  Grammar.mem_letters_of_lower (w.2.lower x hx)

/-- A word starts with a letter. -/
theorem Word.exists_cons (w : Word) : ∃ x cs, w.val = x :: cs ∧ x ∈ letters := by
  obtain ⟨x, cs, e⟩ := List.exists_cons_of_ne_nil w.2.nonempty
  exact ⟨x, cs, e, w.mem_letters (by simp [e])⟩

/-- A word ends with a letter. -/
theorem Word.exists_last (w : Word) : ∃ y ds, w.val.reverse = y :: ds ∧ y ∈ letters := by
  obtain ⟨y, ds, e⟩ := List.exists_cons_of_ne_nil (List.reverse_ne_nil_iff.2 w.2.nonempty)
  exact ⟨y, ds, e, w.mem_letters (List.mem_reverse.1 (e ▸ List.mem_cons_self))⟩

/-- A selector is its words with a space before each but the first. -/
theorem selector_eq (first : Word) (others : List Word) :
    selector first others = first.val ++ others.flatMap fun w => ' ' :: w.val := by
  induction others generalizing first with
  | nil => simp [selector]
  | cons w others ih =>
    have step : selector first (w :: others) = first.val ++ ' ' :: selector w others := by
      simp [selector, List.intercalate_cons_cons]
    rw [step, ih, List.flatMap_cons, List.cons_append]

/-- A selector ends with its last word. -/
theorem exists_selector_eq (first : Word) (others : List Word) :
    ∃ (start : List Char) (w : Word), selector first others = start ++ w.val := by
  rw [selector_eq]
  rcases List.eq_nil_or_concat others with rfl | ⟨others, w, rfl⟩
  · exact ⟨[], first, by simp⟩
  · exact ⟨first.val ++ (others.flatMap fun w => ' ' :: w.val) ++ [' '], w, by simp⟩

/-! ### The characters of a form -/

/-- A long form ends with a word. -/
theorem exists_long_eq (o : Outline) :
    ∃ (start : List Char) (w : Word), o.long = start ++ w.val := by
  cases o with
  | rule first others => exact exists_selector_eq first others
  | declaration name value => exact ⟨_, value, rfl⟩
  | buffer name | flush name | mixin name | inclusion name => exact ⟨_, name, rfl⟩

/-- A long form ends with a letter. -/
theorem exists_last_long (o : Outline) : ∃ y ds, o.long.reverse = y :: ds ∧ y ∈ letters := by
  obtain ⟨start, w, e⟩ := o.exists_long_eq
  obtain ⟨y, ds, ew, hy⟩ := w.exists_last
  exact ⟨y, ds ++ start.reverse, by rw [e, List.reverse_append, ew, List.cons_append], hy⟩

/-- A long form starts with its keyword or with a word. -/
theorem exists_cons_long (o : Outline) : ∃ x cs, o.long = x :: cs ∧ x ∈ '@' :: letters := by
  have word (w : Word) (more : List Char) :
      ∃ x cs, w.val ++ more = x :: cs ∧ x ∈ '@' :: letters := by
    obtain ⟨x, cs, e, hx⟩ := w.exists_cons
    exact ⟨x, cs ++ more, by rw [e, List.cons_append], List.mem_cons_of_mem _ hx⟩
  cases o with
  | rule first others =>
    rw [long, selector_eq]
    exact word first _
  | declaration name value =>
    rw [long, List.append_assoc]
    exact word name _
  | buffer | flush | mixin | inclusion => exact ⟨'@', _, rfl, List.mem_cons_self⟩

/-- A form starts with a letter or a mark. -/
theorem IsForm.exists_cons (h : o.IsForm text) : ∃ x cs, text = x :: cs ∧ x ∈ firsts := by
  rcases h with rfl | h
  · obtain ⟨x, cs, e, hx⟩ := o.exists_cons_long
    refine ⟨x, cs, e, ?_⟩
    rcases List.mem_cons.1 hx with rfl | hx
    · decide
    · simp [firsts, hx]
  · cases o with
    | rule | declaration => cases h
    | buffer name =>
      cases h
      obtain ⟨x, cs, e, hx⟩ := name.exists_cons
      exact ⟨x, cs ++ ['-', '>'], by rw [e, List.cons_append], by simp [firsts, hx]⟩
    | flush | mixin | inclusion =>
      cases h
      exact ⟨_, _, rfl, by simp [firsts]⟩

/-- A form ends with a letter or with the head of an arrow. -/
theorem IsForm.exists_last (h : o.IsForm text) :
    ∃ y ds, text.reverse = y :: ds ∧ y ∈ lasts := by
  have word (w : Word) (start : List Char) :
      ∃ y ds, (start ++ w.val).reverse = y :: ds ∧ y ∈ lasts := by
    obtain ⟨y, ds, e, hy⟩ := w.exists_last
    exact ⟨y, ds ++ start.reverse, by rw [List.reverse_append, e, List.cons_append],
      List.mem_cons_of_mem _ hy⟩
  rcases h with rfl | h
  · obtain ⟨start, w, e⟩ := o.exists_long_eq
    exact e ▸ word w start
  · cases o with
    | rule | declaration => cases h
    | buffer name =>
      cases h
      exact ⟨'>', '-' :: name.val.reverse, by simp, List.mem_cons_self⟩
    | flush name =>
      cases h
      exact word name ['<', '-']
    | mixin name =>
      cases h
      exact word name ['=']
    | inclusion name =>
      cases h
      exact word name ['+']

/-- The characters of a form are in the alphabet. -/
theorem IsForm.mem_alphabet (h : o.IsForm text) (hx : x ∈ text) : x ∈ alphabet := by
  have word (w : Word) (hx : x ∈ w.val) : x ∈ alphabet := by
    simp [alphabet, firsts, w.mem_letters hx]
  have directive (keyword : String) (w : Word) (known : ∀ x ∈ keyword.toList, x ∈ alphabet)
      (hx : x ∈ directive keyword w) : x ∈ alphabet := by
    rw [Outline.directive, List.append_assoc, List.mem_append, List.mem_append,
      List.mem_singleton] at hx
    rcases hx with hx | rfl | hx
    · exact known x hx
    · decide
    · exact word w hx
  rcases h with rfl | h
  · cases o with
    | rule first others =>
      rw [long, selector_eq, List.mem_append, List.mem_flatMap] at hx
      rcases hx with hx | ⟨w, -, hx⟩
      · exact word first hx
      · rcases List.mem_cons.1 hx with rfl | hx
        · decide
        · exact word w hx
    | declaration name value =>
      rw [long, List.append_assoc, List.mem_append, List.mem_append] at hx
      rcases hx with hx | hx | hx
      · exact word name hx
      · exact (show ∀ x ∈ [':', ' '], x ∈ alphabet by decide) x hx
      · exact word value hx
    | buffer name | flush name | mixin name | inclusion name =>
      exact directive _ name (by decide) hx
  · cases o with
    | rule | declaration => cases h
    | buffer name =>
      cases h
      rcases List.mem_append.1 hx with hx | hx
      · exact word name hx
      · exact (show ∀ x ∈ ['-', '>'], x ∈ alphabet by decide) x hx
    | flush name =>
      cases h
      rcases List.mem_append.1 (show x ∈ ['<', '-'] ++ name.val from hx) with hx | hx
      · exact (show ∀ x ∈ ['<', '-'], x ∈ alphabet by decide) x hx
      · exact word name hx
    | mixin name | inclusion name =>
      cases h
      rcases List.mem_cons.1 hx with rfl | hx
      · decide
      · exact word name hx

/-- A line is trimmed to its form. -/
theorem IsForm.trim (h : o.IsForm text) {blanks : List Char}
    (blank : ∀ x ∈ blanks, Text.isBlank x = true) : Text.trimChars (blanks ++ text) = text := by
  obtain ⟨x, cs, e, hx⟩ := h.exists_cons
  obtain ⟨y, ds, e', hy⟩ := h.exists_last
  have first : Text.isBlank x = false := (show ∀ x ∈ firsts, Text.isBlank x = false by decide) x hx
  have last : Text.isBlank y = false := (show ∀ x ∈ lasts, Text.isBlank x = false by decide) y hy
  exact Text.trimChars_append blank e first e' last

/-- The column of a form. -/
theorem IsForm.takeWhile (h : o.IsForm text) {blanks : List Char}
    (blank : ∀ x ∈ blanks, Text.isBlank x = true) :
    (blanks ++ text).takeWhile Text.isBlank = blanks := by
  obtain ⟨x, cs, e, hx⟩ := h.exists_cons
  have first : Text.isBlank x = false := (show ∀ x ∈ firsts, Text.isBlank x = false by decide) x hx
  rw [List.takeWhile_append_of_pos blank, e, List.takeWhile_cons_of_neg (by simp [first]),
    List.append_nil]

/-- A form starts no comment. -/
theorem IsForm.opens?_eq_none (h : o.IsForm text) (number column : Nat) :
    opens? { number, column, content := text } = none := by
  obtain ⟨x, cs, rfl, hx⟩ := h.exists_cons
  have other : x ≠ '/' := (show ∀ x ∈ firsts, x ≠ '/' by decide) x hx
  simp [opens?, startsWith, List.isPrefixOf, other.symm]

/-! ### The long form -/

/-- What starts otherwise is no short form of a flush. -/
theorem flushArrow?_eq_none (first : x ≠ '<') : flushArrow? (x :: cs) = none := by
  unfold flushArrow?
  split
  · simp_all
  · rfl

/-- What ends otherwise is no short form of a buffer. -/
theorem bufferArrow?_eq_none {y : Char} {ds : List Char} (ends : cs.reverse = y :: ds)
    (last : y ≠ '>') : bufferArrow? cs = none := by
  unfold bufferArrow?
  rw [ends]
  split
  · simp_all
  · rfl

/-- What starts and ends otherwise than a short form is long. -/
theorem longForm_eq {y : Char} {ds : List Char} (first : x ∉ ['<', '=', '+'])
    (ends : (x :: cs).reverse = y :: ds) (last : y ≠ '>') : longForm (x :: cs) = x :: cs := by
  simp only [List.mem_cons, List.not_mem_nil, or_false, not_or] at first
  obtain ⟨notFlush, notMixin, notInclusion⟩ := first
  unfold longForm
  rw [flushArrow?_eq_none notFlush, bufferArrow?_eq_none ends last]
  dsimp only
  split <;> simp_all

/-- A long form is its own long form. -/
theorem longForm_long (o : Outline) : longForm o.long = o.long := by
  obtain ⟨x, cs, e, hx⟩ := o.exists_cons_long
  obtain ⟨y, ds, e', hy⟩ := o.exists_last_long
  rw [e] at e' ⊢
  exact longForm_eq ((show ∀ x ∈ '@' :: letters, x ∉ ['<', '=', '+'] by decide) x hx) e'
    ((show ∀ y ∈ letters, y ≠ '>' by decide) y hy)

/-- No blanks are taken off a word. -/
theorem Word.trimChars (w : Word) : Text.trimChars w.val = w.val := by
  obtain ⟨x, cs, e, hx⟩ := w.exists_cons
  obtain ⟨y, ds, e', hy⟩ := w.exists_last
  have notBlank : ∀ x ∈ letters, Text.isBlank x = false := by decide
  exact Text.trimChars_append (g := []) (List.forall_mem_nil _) e (notBlank x hx) e' (notBlank y hy)

/-- **Either form is turned into the long one.** -/
theorem IsForm.longForm_eq (h : o.IsForm text) : longForm text = o.long := by
  rcases h with rfl | h
  · exact o.longForm_long
  cases o with
  | rule | declaration => cases h
  | buffer name =>
    cases h
    obtain ⟨x, cs, e, hx⟩ := name.exists_cons
    obtain ⟨y, ds, e', hy⟩ := name.exists_last
    have notFlush : flushArrow? (name.val ++ ['-', '>']) = none := by
      rw [e]
      exact flushArrow?_eq_none ((show ∀ x ∈ letters, x ≠ '<' by decide) x hx)
    have notBlank : Text.isBlank y = false :=
      (show ∀ x ∈ letters, Text.isBlank x = false by decide) y hy
    have arrow : bufferArrow? (name.val ++ ['-', '>']) = some name.val := by
      have ends : (name.val ++ ['-', '>']).reverse = '>' :: '-' :: y :: ds := by simp [e']
      simp only [bufferArrow?, ends]
      rw [List.dropWhile_cons_of_neg (by simp [notBlank])]
      exact congrArg some (by rw [← e', List.reverse_reverse])
    simp only [longForm, notFlush, arrow]
    rfl
  | flush name =>
    cases h
    obtain ⟨x, cs, e, hx⟩ := name.exists_cons
    have notBlank : Text.isBlank x = false :=
      (show ∀ x ∈ letters, Text.isBlank x = false by decide) x hx
    have arrow : flushArrow? ('<' :: '-' :: name.val) = some name.val := by
      simp [flushArrow?, e, notBlank]
    simp only [longForm, arrow]
    rfl
  | mixin name | inclusion name =>
    cases h
    obtain ⟨y, ds, e, hy⟩ := name.exists_last
    have notBuffer (x : Char) : bufferArrow? (x :: name.val) = none := by
      have ends : (x :: name.val).reverse = y :: (ds ++ [x]) := by simp [e]
      exact bufferArrow?_eq_none ends ((show ∀ y ∈ letters, y ≠ '>' by decide) y hy)
    have notFlush : ∀ x ∈ ['=', '+'], flushArrow? (x :: name.val) = none := fun x hx =>
      flushArrow?_eq_none ((show ∀ x ∈ ['=', '+'], x ≠ '<' by decide) x hx)
    simp only [longForm, notFlush _ (by decide : '=' ∈ ['=', '+']),
      notFlush _ (by decide : '+' ∈ ['=', '+']), notBuffer, name.trimChars]
    rfl

/-! ### The end of a statement -/

/-- A word is one piece of a property name. -/
theorem Word.afterPiece? (w : Word) {more : List Char}
    (stops : ∀ x ∈ more.head?, Name.isPart x = false) :
    Indentation.afterPiece? (w.val ++ more) = some more := by
  obtain ⟨x, cs, e, hx⟩ := w.exists_cons
  have starts : Name.isStart x = true := (show ∀ x ∈ letters, Name.isStart x = true by decide) x hx
  have other : x ≠ '#' := (show ∀ x ∈ letters, x ≠ '#' by decide) x hx
  have parts : ∀ x ∈ cs, Name.isPart x = true := fun x hx =>
    (show ∀ x ∈ letters, Name.isPart x = true by decide) x
      (w.mem_letters (e ▸ List.mem_cons_of_mem _ hx))
  have rest : (cs ++ more).dropWhile Name.isPart = more := by
    rw [List.dropWhile_append_of_pos parts]
    cases more with
    | nil => rfl
    | cons y more => rw [List.dropWhile_cons_of_neg (by simp [stops y rfl])]
  rw [e, List.cons_append]
  unfold Indentation.afterPiece?
  split
  · simp_all
  · next eq =>
    cases eq
    rw [if_pos (by simp [starts]), rest]
  · simp_all

/-- No property name goes on with a blank or a colon. -/
theorem afterPieces_eq {more : List Char} (stops : ∀ x ∈ more.head?, x = ' ' ∨ x = ':')
    (fuel : Nat) : afterPieces fuel more = more := by
  cases fuel with
  | zero => rfl
  | succ fuel =>
    cases more with
    | nil => rfl
    | cons x more => rcases stops x rfl with rfl | rfl <;> rfl

/-- Whether a text starts with one colon. -/
def startsWithColon : List Char → Bool
  | ':' :: ':' :: _ => false
  | ':' :: _ => true
  | _ => false

/-- A word is a property name if one colon follows it. -/
theorem Word.isProperty (w : Word) {more : List Char}
    (stops : ∀ x ∈ more.head?, x = ' ' ∨ x = ':') :
    isProperty (w.val ++ more) = startsWithColon (more.dropWhile Text.isBlank) := by
  have parts : ∀ x ∈ more.head?, Name.isPart x = false := fun x hx => by
    rcases stops x hx with rfl | rfl <;> rfl
  simp only [Indentation.isProperty, w.afterPiece? parts, afterPieces_eq stops]
  rfl

/-- A selector is no declaration. -/
theorem isProperty_selector (first : Word) (others : List Word) :
    isProperty (selector first others) = false := by
  rw [selector_eq]
  cases others with
  | nil =>
    rw [first.isProperty (by simp)]
    rfl
  | cons w others =>
    obtain ⟨x, cs, e, hx⟩ := w.exists_cons
    have notBlank : Text.isBlank x = false :=
      (show ∀ x ∈ letters, Text.isBlank x = false by decide) x hx
    have notColon : x ≠ ':' := (show ∀ x ∈ letters, x ≠ ':' by decide) x hx
    rw [List.flatMap_cons, List.cons_append, first.isProperty (by simp),
      List.dropWhile_cons_of_pos (by rfl), e, List.cons_append,
      List.dropWhile_cons_of_neg (by simp [notBlank])]
    unfold startsWithColon
    split <;> simp_all

/-- A declaration is one. -/
theorem isProperty_declaration (name value : Word) :
    isProperty (declaration name value).long = true := by
  rw [long, List.append_assoc, name.isProperty (by simp)]
  rfl

/-- **What is written after a statement with nothing inside it**: braces or a semicolon. -/
theorem ending_long (bodiless : o.body = []) :
    ending o.long = if o.hasBraces then [' ', '\x7b', '\x7d'] else [';'] := by
  have words (w : Word) (more : List Char) :
      ending (w.val ++ more) =
        if isProperty (w.val ++ more) then [';'] else [' ', '\x7b', '\x7d'] := by
    obtain ⟨x, cs, e, hx⟩ := w.exists_cons
    have notDollar : x ≠ '$' := (show ∀ x ∈ letters, x ≠ '$' by decide) x hx
    have notAt : x ≠ '@' := (show ∀ x ∈ letters, x ≠ '@' by decide) x hx
    rw [e, List.cons_append]
    unfold ending
    dsimp only
    split <;> simp_all
  cases o with
  | rule first others body =>
    have none := isProperty_selector first others
    rw [long]
    rw [selector_eq] at none ⊢
    rw [words, none]
    rfl
  | declaration name value =>
    have some := isProperty_declaration name value
    rw [long, List.append_assoc] at some ⊢
    rw [words, some]
    rfl
  | buffer name body =>
    cases bodiless
    rfl
  | flush name | mixin name body | inclusion name => rfl

end Outline
end Stylesheet
