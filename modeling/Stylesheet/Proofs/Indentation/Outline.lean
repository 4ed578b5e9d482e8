/-
# Outlines

An outline is a forest of rules, declarations, buffers, flushes, definitions of mixins
without parameters and inclusions whose names, values and selectors are made of words.  It
can be written in either syntax: `Outline.Braces` says how it is written with braces, with
any space between the statements, and `Outline.Indents` on what lines it is written with
indentation, in long or in short form.

What is written with braces reads as the nodes of the outline, up to the lines that those are
on (`Outline.written_of_braces`).
-/

import Stylesheet.Proofs.Grammar.Simple

namespace Stylesheet

open Grammar (IsWord letters)
open Simple (IsGap)

/-- A word of small letters. -/
abbrev Outline.Word : Type := { w : List Char // IsWord w }

/-- A statement of an outline, with the statements inside it. -/
inductive Outline where
  /-- A rule whose selector is made of words. -/
  | rule (first : Outline.Word) (others : List Outline.Word) (body : List Outline)
  /-- A declaration. -/
  | declaration (name value : Outline.Word)
  /-- A buffer. -/
  | buffer (name : Outline.Word) (body : List Outline)
  /-- A flush. -/
  | flush (name : Outline.Word)
  /-- The definition of a mixin without parameters. -/
  | mixin (name : Outline.Word) (body : List Outline)
  /-- An inclusion without arguments. -/
  | inclusion (name : Outline.Word)

namespace Outline

/-- A selector of words. -/
def selector (first : Word) (others : List Word) : List Char :=
  [' '].intercalate ((first :: others).map Subtype.val)

/-- An at-keyword and a name. -/
def directive (keyword : String) (name : Word) : List Char :=
  keyword.toList ++ [' '] ++ name.val

/-- The statements inside a statement. -/
def body : Outline → List Outline
  | rule _ _ body | buffer _ body | mixin _ body => body
  | _ => []

/-- What is written of a statement before its body or its end. -/
def long : Outline → List Char
  | rule first others _ => selector first others
  | declaration name value => name.val ++ [':', ' '] ++ value.val
  | buffer name _ => directive "@buffer" name
  | flush name => directive "@flush" name
  | mixin name _ => directive "@mixin" name
  | inclusion name => directive "@include" name

/-- The short form of a statement, if it has one. -/
def short? : Outline → Option (List Char)
  | buffer name _ => some (name.val ++ ['-', '>'])
  | flush name => some ('<' :: '-' :: name.val)
  | mixin name _ => some ('=' :: name.val)
  | inclusion name => some ('+' :: name.val)
  | _ => none

/-- Whether a text is a form of a statement. -/
def IsForm (o : Outline) (text : List Char) : Prop :=
  text = o.long ∨ text ∈ o.short?

/-- Whether a statement is written with braces, be there something inside or not. -/
def hasBraces : Outline → Bool
  | rule .. | mixin .. => true
  | buffer _ body => !body.isEmpty
  | _ => false

/-- How an outline is written with braces, with space before each statement. -/
inductive Braces : List Outline → List Char → Prop
  | nil {g : List Char} (hg : IsGap g) : Braces [] g
  | leaf {o : Outline} {os : List Outline} {g text : List Char} (hg : IsGap g)
    (leaf : o.hasBraces = false) (more : Braces os text) :
    Braces (o :: os) (g ++ o.long ++ [';'] ++ text)
  | block {o : Outline} {os : List Outline} {g inner text : List Char} (hg : IsGap g)
    (braces : o.hasBraces = true) (body : Braces o.body inner) (more : Braces os text) :
    Braces (o :: os) (g ++ o.long ++ [' ', '\x7b'] ++ inner ++ ['\x7d'] ++ text)

/-- On what lines an outline is written with indentation, its outermost statements at a
column. -/
inductive Indents : (column : Nat) → List Outline → List (List Char) → Prop
  | nil {c : Nat} : Indents c [] []
  | cons {c d : Nat} {o : Outline} {os : List Outline} {blanks text : List Char}
    {inner more : List (List Char)} (column : blanks.length = c)
    (blank : ∀ x ∈ blanks, x = ' ' ∨ x = '\t') (form : o.IsForm text)
    (deeper : c < d) (body : Indents d o.body inner) (rest : Indents c os more) :
    Indents c (o :: os) ((blanks ++ text) :: (inner ++ more))

/-! ### With braces -/

mutual

/-- An outline as a simple statement. -/
def simple : Outline → Simple
  | rule first others body => .block (.rule (selector first others ++ [' '])) (simpleAll body)
  | declaration name value => .declaration name.val value.val
  | buffer name body => .block (.buffer name.val) (simpleAll body)
  | flush name => .flush name.val
  | mixin name body => .block (.mixin name.val) (simpleAll body)
  | inclusion name => .inclusion name.val

/-- Outlines as simple statements. -/
def simpleAll : List Outline → List Simple
  | [] => []
  | o :: os => o.simple :: simpleAll os

end

/-- A selector and the space before its block are a text of selectors. -/
theorem isSelectorText_selector (first : Word) (others : List Word) :
    Grammar.IsSelectorText (selector first others ++ [' ']) := by
  refine Grammar.MadeOf.append (.intercalate (by simp) (fun w hw => ?_) (by decide) (by decide))
    (by decide)
  obtain ⟨word, -, rfl⟩ := List.mem_map.1 hw
  exact word.2.madeOf.mono (by decide) (by decide)

/-- What is written with braces is how the simple statements are written. -/
theorem written_of_braces {os : List Outline} {text : List Char} (h : Braces os text)
    (inBlock : Bool) : Simple.Written inBlock (simpleAll os) text := by
  induction h generalizing inBlock with
  | nil hg => exact .nil hg
  | @leaf o os g text hg leaf more ih =>
    simp only [List.append_assoc]
    refine .gap hg ?_
    have more := ih inBlock
    cases o with
    | rule | mixin => cases leaf
    | declaration name value =>
      have property : Grammar.IsPropertyText name.val :=
        name.2.madeOf.mono (List.Subset.refl _) (List.subset_cons_self _ _)
      simpa [long, simpleAll, simple] using
        Simple.Written.declaration property value.2 Simple.isGap_blank more
    | buffer name body =>
      cases body with
      | nil => simpa [long, directive, simpleAll, simple] using Simple.Written.bodiless name.2 more
      | cons => cases leaf
    | flush name =>
      simpa [long, directive, simpleAll, simple] using Simple.Written.flush name.2 more
    | inclusion name =>
      simpa [long, directive, simpleAll, simple] using Simple.Written.inclusion name.2 more
  | @block o os g inner text hg braces _ more ih ih' =>
    simp only [List.append_assoc]
    refine .gap hg ?_
    have inside := ih true
    have more := ih' inBlock
    cases o with
    | declaration | flush | inclusion => cases braces
    | rule first others =>
      simpa [long, directive, simpleAll, simple, body] using
        Simple.Written.block (.rule (isSelectorText_selector first others)) inside more
    | buffer name =>
      simpa [long, directive, simpleAll, simple, body] using
        Simple.Written.block (.buffer name.2) inside more
    | mixin name =>
      simpa [long, directive, simpleAll, simple, body] using
        Simple.Written.block (.mixin name.2) inside more

/-- **All that is written with braces for an outline reads as the same tree**, but for the
lines. -/
theorem parse_of_braces (file : String) {os : List Outline} {text : String}
    (h : Braces os text.toList) :
    ∃ children, Document.parse file text = .ok (.plain {} .root children) ∧
      Node.unplacedAll children = Simple.draftAll file (simpleAll os) :=
  Document.parse_of_written file (written_of_braces h false)

end Outline
end Stylesheet
