/-
# Blanks

Two sets of blank characters meet in a style sheet.  *Spaces* separate tokens
inside the brace syntax; *blanks* are what is trimmed from the ends of a text
and what separates the words of a selector or an at-rule prelude.  The second
set adds the four information separators U+001C … U+001F to the first.

`trim` and `words` work on lists of characters; `collapse` writes the words of
a text with single spaces between them.  `isBlank_of_isSpace` relates the sets,
`words_ne_nil` and `words_all` say what a word is.
-/

namespace Stylesheet
namespace Text

/-- The spaces of the brace syntax. -/
def isSpace (c : Char) : Bool :=
  let n := c.toNat
  (0x09 ≤ n && n ≤ 0x0D) || n == 0x20 || n == 0x85 || n == 0xA0 || n == 0x1680
    || (0x2000 ≤ n && n ≤ 0x200A) || n == 0x2028 || n == 0x2029 || n == 0x202F
    || n == 0x205F || n == 0x3000

/-- The characters trimmed from a text: the spaces and U+001C … U+001F. -/
def isBlank (c : Char) : Bool :=
  isSpace c || (0x1C ≤ c.toNat && c.toNat ≤ 0x1F)

/-- A space is trimmed. -/
theorem isBlank_of_isSpace {c : Char} (h : isSpace c = true) : isBlank c = true := by
  simp [isBlank, h]

/-- `cs` without the blanks at its end. -/
def trimEnd (cs : List Char) : List Char :=
  (cs.reverse.dropWhile isBlank).reverse

/-- `cs` without the blanks at either end. -/
def trimChars (cs : List Char) : List Char :=
  trimEnd (cs.dropWhile isBlank)

/-- `s` without the blanks at either end. -/
def trim (s : String) : String :=
  String.ofList (trimChars s.toList)

/-- The maximal runs of characters of `cs` that are not blank, `word` being the
run that is still open, last character first. -/
def wordsFrom (word : List Char) : List Char → List (List Char)
  | [] => if word.isEmpty then [] else [word.reverse]
  | c :: rest =>
    if isBlank c then
      if word.isEmpty then wordsFrom [] rest else word.reverse :: wordsFrom [] rest
    else wordsFrom (c :: word) rest

/-- The maximal runs of characters of `cs` that are not blank. -/
def words (cs : List Char) : List (List Char) :=
  wordsFrom [] cs

/-- The words of `cs`, one space between each two. -/
def collapseChars (cs : List Char) : List Char :=
  List.intercalate [' '] (words cs)

/-- The words of `s`, one space between each two. -/
def collapse (s : String) : String :=
  String.ofList (collapseChars s.toList)

/-- The words of a text are not empty and have no blanks. -/
theorem mem_wordsFrom {word cs w : List Char} (hw : ∀ c ∈ word, isBlank c = false)
    (h : w ∈ wordsFrom word cs) : w ≠ [] ∧ ∀ c ∈ w, isBlank c = false := by
  -- the open word is not blank, and it is left only if it has a character
  have closed {c : Char} {r : List Char} (hw : ∀ d ∈ c :: r, isBlank d = false) :
      (c :: r).reverse ≠ [] ∧ ∀ d ∈ (c :: r).reverse, isBlank d = false :=
    ⟨by simp, fun d hd => hw d (List.mem_reverse.1 hd)⟩
  induction cs generalizing word with
  | nil =>
    cases word with
    | nil => simp [wordsFrom] at h
    | cons c r =>
      rw [wordsFrom, if_neg (by simp), List.mem_singleton] at h
      exact h ▸ closed hw
  | cons c rest ih =>
    rw [wordsFrom] at h
    split at h
    · cases word with
      | nil => exact ih hw (by simpa using h)
      | cons d r =>
        rw [if_neg (by simp), List.mem_cons] at h
        rcases h with rfl | h
        · exact closed hw
        · exact ih (List.forall_mem_nil _) h
    · rename_i black
      exact ih (List.forall_mem_cons.2 ⟨Bool.not_eq_true _ ▸ black, hw⟩) h

/-- **No word is empty.** -/
theorem words_ne_nil {cs w : List Char} (h : w ∈ words cs) : w ≠ [] :=
  (mem_wordsFrom (List.forall_mem_nil _) h).1

/-- **A word holds no blank.** -/
theorem words_all {cs w : List Char} (h : w ∈ words cs) : ∀ c ∈ w, isBlank c = false :=
  (mem_wordsFrom (List.forall_mem_nil _) h).2

end Text
end Stylesheet
