/-
# Texts up to their blanks

Blanks around a text do not count when its blanks are collapsed (`Text.collapseChars_around`), and
nothing but blanks goes then: `Text.black` are the other characters of a text
(`Text.black_collapseChars`).
-/

import Stylesheet.Text.Blank
import Mathlib.Data.List.Basic

namespace Stylesheet

/-- A condition on the characters of a text is decided character by character. -/
instance decidableForallMem {P : Char → Prop} [DecidablePred P] (cs : List Char) :
    Decidable (∀ x ∈ cs, P x) :=
  List.decidableBAll P cs

namespace Text

variable {cs g g' : List Char}

/-- A text of nothing but blanks. -/
def Blanks (g : List Char) : Prop :=
  ∀ x ∈ g, isBlank x = true

/-- A text without blanks that is not empty. -/
structure IsBlackWord (w : List Char) : Prop where
  nonempty : w ≠ []
  black : ∀ x ∈ w, isBlank x = false

/-- Only the blanks before a text are trimmed if it neither starts nor ends with one. -/
theorem trimChars_append (blank : Blanks g) {x y : Char} {ts ds : List Char} (first : cs = x :: ts)
    (hx : isBlank x = false) (last : cs.reverse = y :: ds) (hy : isBlank y = false) :
    trimChars (g ++ cs) = cs := by
  have start : (g ++ cs).dropWhile isBlank = cs := by
    rw [List.dropWhile_append_of_pos blank, first, List.dropWhile_cons_of_neg (by simp [hx])]
  rw [trimChars, start, trimEnd, last, List.dropWhile_cons_of_neg (by simp [hy]), ← last,
    List.reverse_reverse]

/-- The blanks before a text do not count for its words. -/
theorem words_append_of_blanks (blank : Blanks g) (cs : List Char) :
    words (g ++ cs) = words cs := by
  induction g with
  | nil => rfl
  | cons x g ih =>
    obtain ⟨hx, hg⟩ := List.forall_mem_cons.1 blank
    rw [← ih hg, words, List.cons_append, wordsFrom, if_pos hx]
    rfl

/-- The blanks after a text do not count for its words. -/
theorem wordsFrom_append_of_blanks (blank : Blanks g) (word cs : List Char) :
    wordsFrom word (cs ++ g) = wordsFrom word cs := by
  induction cs generalizing word with
  | nil =>
    induction g generalizing word with
    | nil => rfl
    | cons x g ih =>
      obtain ⟨hx, hg⟩ := List.forall_mem_cons.1 blank
      have rest := ih hg []
      rw [List.nil_append] at rest
      cases word with
      | nil => simp [wordsFrom, hx, rest]
      | cons a word => simp [wordsFrom, hx, rest]
  | cons c cs ih => simp only [List.cons_append, wordsFrom, ih]

/-- The blanks around a text do not count. -/
theorem collapseChars_around (blank : Blanks g) (blank' : Blanks g') (cs : List Char) :
    collapseChars (g ++ (cs ++ g')) = collapseChars cs := by
  rw [collapseChars, words_append_of_blanks blank, words, wordsFrom_append_of_blanks blank']
  rfl

/-! ### The other characters -/

/-- The characters of a text that are no blanks. -/
def black (cs : List Char) : List Char :=
  cs.filter fun c => !isBlank c

/-- A blank goes. -/
theorem black_cons_of_blank {c : Char} (blank : isBlank c = true) (cs : List Char) :
    black (c :: cs) = black cs :=
  List.filter_cons_of_neg (by simp [blank])

/-- Any other character stays. -/
theorem black_cons_of_not_blank {c : Char} (other : isBlank c = false) (cs : List Char) :
    black (c :: cs) = c :: black cs :=
  List.filter_cons_of_pos (by simp [other])

/-- Blanks go from each part of a text. -/
theorem black_append (cs ds : List Char) : black (cs ++ ds) = black cs ++ black ds :=
  List.filter_append ..

/-- Nothing is left of blanks. -/
theorem black_of_blanks (blank : Blanks g) : black g = [] :=
  List.filter_eq_nil_iff.2 fun c hc => by simp [blank c hc]

/-- A text without blanks is left as it is. -/
theorem black_of_all (all : ∀ c ∈ cs, isBlank c = false) : black cs = cs :=
  List.filter_eq_self.2 fun c hc => by simp [all c hc]

/-- The words of a text have its characters, but for the blanks. -/
theorem flatten_wordsFrom (word cs : List Char) :
    (wordsFrom word cs).flatten = word.reverse ++ black cs := by
  induction cs generalizing word with
  | nil =>
    cases word with
    | nil => rfl
    | cons a word => simp [wordsFrom, black]
  | cons c cs ih =>
    cases blank : isBlank c with
    | false => simp [wordsFrom, blank, ih, black_cons_of_not_blank blank]
    | true =>
      cases word with
      | nil => simp [wordsFrom, blank, ih, black_cons_of_blank blank]
      | cons a word => simp [wordsFrom, blank, ih, black_cons_of_blank blank]

/-- Only the spaces between words go. -/
theorem black_intercalate (ws : List (List Char)) (all : ∀ w ∈ ws, ∀ c ∈ w, isBlank c = false) :
    black ([' '].intercalate ws) = ws.flatten := by
  induction ws with
  | nil => rfl
  | cons w ws ih =>
    obtain ⟨hw, others⟩ := List.forall_mem_cons.1 all
    have space : black [' '] = [] := by decide
    cases ws with
    | nil => simp [black_of_all hw]
    | cons v ws =>
      rw [List.intercalate_cons_cons, black_append, black_append, space, black_of_all hw,
        ih others, List.append_nil]
      rfl

/-- **Only blanks go when blanks are collapsed.** -/
theorem black_collapseChars (cs : List Char) : black (collapseChars cs) = black cs := by
  rw [collapseChars, black_intercalate _ fun w hw => words_all hw, words, flatten_wordsFrom]
  rfl

/-- The blanks around a text are among those that go. -/
theorem black_around (blank : Blanks g) (blank' : Blanks g') (cs : List Char) :
    black (g ++ (cs ++ g')) = black cs := by
  rw [black_append, black_append, black_of_blanks blank, black_of_blanks blank', List.append_nil,
    List.nil_append]

end Text

end Stylesheet
