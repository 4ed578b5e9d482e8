/-
# What the rules of the grammar read

A property of what the rules read is *closed* if what a rule reads has it as long as what
the rules that it calls read does (`Grammar.Closed`).  Then whatever is read has it
(`Grammar.reads_rule`), and so does every document that a text is
(`Document.fits_of_parse`, `Document.fits_of_readIn`) and every refusal that is not one of
the place where the text goes on (`Document.refused_of_parse`).

What is read may have to start at a place of some kind, as `Peg.ReadsFrom` has it; every
place of a text is `Cursor.In` its file, on some line.
-/

import Stylesheet.Indentation
import Stylesheet.Proofs.Grammar.Unaided
import Stylesheet.Proofs.Peg.Reads
import Stylesheet.Proofs.Stages

namespace Stylesheet

/-- Whether a place is on a line of a file. -/
def Cursor.In (file : String) (c : Cursor) : Prop :=
  c.file = file ∧ 0 < c.line

namespace Grammar

open Peg (ReadsFrom)

instance lasting_in (file : String) : Peg.Lasting (Cursor.In file) unaided where
  last h start := by
    obtain ⟨k, -, rfl, -⟩ := Peg.run_eq_ok unaided_plain ground_ranks h
    exact ⟨start.1, Nat.lt_of_lt_of_le start.2 (Nat.le_add_right _ _)⟩

variable {good : Cursor → Prop} {fits : (α : Type) → Rule α → α → Prop}

/-- Whether what a rule reads from a good place fits as long as what the rules that it calls
read does. -/
def Closed (good : Cursor → Prop) (fits : (α : Type) → Rule α → α → Prop) : Prop :=
  ∀ n, (∀ {α : Type} (r : Rule α), ReadsFrom good unaided n (on r) (fits α r)) →
    ∀ {α : Type} (r : Rule α), ReadsFrom good unaided n (body r) (fits α r)

/-- **Every rule reads what fits.** -/
theorem reads_rule (closed : Closed good fits) (n : Nat) {α : Type} (r : Rule α) :
    ReadsFrom good unaided n (on r) (fits α r) := by
  induction n using Nat.strongRecOn generalizing α r with
  | ind n ih =>
    refine .call (fun c a d found => ?_) fun m hm => closed m (fun r => ih m hm r) r
    rw [unaided_plain] at found
    cases found

end Grammar

variable {good : Cursor → Prop} {fits : (α : Type) → Rule α → α → Prop}

/-- What a document comes from: what the rule of a sheet has read, or the text is refused at
some place. -/
theorem Document.parse_cases (closed : Grammar.Closed good fits) {file text : String}
    (start : good (.start file text.toList)) :
    (∃ nodes, fits _ .sheet nodes ∧
        Document.parse file text = nodes.map fun children => .plain {} .root children) ∨
      ∃ left, Document.parse file text = .error (refusalAt file text.toList left) := by
  simp only [Document.parse, Grammar.run_sheet_eq]
  cases e : Peg.run Grammar.unaided _ (.call Rule.sheet) (.start file text.toList) with
  | ok nodes next =>
    dsimp only
    split
    · have read := Grammar.reads_rule closed _ .sheet _ (Nat.le_refl _) _ nodes next e start
      refine .inl ⟨nodes, read, ?_⟩
      cases nodes <;> rfl
    · exact .inr ⟨_, rfl⟩
  | fail => exact .inr ⟨_, rfl⟩
  | exhausted => exact .inr ⟨_, rfl⟩

/-- **The content of a document fits.** -/
theorem Document.fits_of_parse (closed : Grammar.Closed good fits) {file text : String}
    (start : good (.start file text.toList)) {tree : Node}
    (h : Document.parse file text = .ok tree) :
    ∃ cs, tree = .plain {} .root cs ∧ fits _ .sheet (.ok cs) := by
  obtain ⟨nodes, read, e⟩ | ⟨left, e⟩ := Document.parse_cases closed start
  · rw [e] at h
    cases nodes with
    | error d => cases h
    | ok cs =>
      cases h
      exact ⟨cs, rfl, read⟩
  · rw [e] at h
    cases h

/-- What a text is refused with. -/
theorem Document.refused_of_parse (closed : Grammar.Closed good fits) {file text : String}
    (start : good (.start file text.toList)) {d : Diagnostic}
    (h : Document.parse file text = .error d) :
    fits _ .sheet (.error d) ∨ ∃ left, d = refusalAt file text.toList left := by
  obtain ⟨nodes, read, e⟩ | ⟨left, e⟩ := Document.parse_cases closed start
  · rw [e] at h
    cases nodes with
    | error d =>
      cases h
      exact .inl read
    | ok cs => cases h
  · rw [e] at h
    cases h
    exact .inr ⟨left, rfl⟩

/-- A document that has been read is a text that has been parsed. -/
theorem Document.parse_of_readIn {inputSyntax : Syntax} {file text : String} {log log' : Log}
    {tree : Node} (h : Document.readIn inputSyntax file text log = (.ok tree, log')) :
    ∃ braces, Document.parse file braces = .ok tree := by
  have ofRead {text : String} {log : Log}
      (h : Document.read file text log = (.ok tree, log')) :
      ∃ braces, Document.parse file braces = .ok tree := by
    cases e : Document.parse file text with
    | error d =>
      rw [Document.read, e] at h
      cases h
    | ok root =>
      rw [Document.read, e] at h
      obtain ⟨_, _, -, h⟩ := Logged.bind_eq_ok h
      cases h
      exact ⟨text, e⟩
  cases inputSyntax with
  | braces => exact ofRead h
  | indented =>
    obtain ⟨braces, _, -, h⟩ := Logged.bind_eq_ok h
    exact ofRead h

/-- **So it does in either syntax.** -/
theorem Document.fits_of_readIn (closed : Grammar.Closed good fits) {file : String}
    (start : ∀ text, good (.start file text)) {inputSyntax : Syntax} {text : String}
    {log log' : Log} {tree : Node}
    (h : Document.readIn inputSyntax file text log = (.ok tree, log')) :
    ∃ cs, tree = .plain {} .root cs ∧ fits _ .sheet (.ok cs) := by
  obtain ⟨braces, e⟩ := Document.parse_of_readIn h
  exact Document.fits_of_parse closed (start _) e

end Stylesheet
