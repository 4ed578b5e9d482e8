/-
# The indented syntax

An indented style sheet is turned line by line into the brace syntax: every
source line gives one line, so the line numbers of the outcome are those of the
source.  A statement that is followed by a deeper one opens a block; the blocks
that a statement leaves are closed at the start of its line, and those still open
at the end on one more line.

There are short forms:

| short | long |
| --- | --- |
| `name->`, `name ->` | `@buffer name` |
| `<-name`, `<- name` | `@flush name` |
| `=name(args)` | `@mixin name(args)` |
| `+name(args)` | `@include name(args)` |

A comment is a line that starts with two slashes, or a slash and a star, together
with the deeper lines after it; it is closed where it ends.
-/

import Stylesheet.Grammar
import Stylesheet.Options
import Stylesheet.Text.Lines

namespace Stylesheet
namespace Indentation

open Text

/-- A line of the source that is not blank: its number from 0, its column, and
its text without the blanks around it. -/
structure Line where
  /-- The number of the line, from 0. -/
  number : Nat
  /-- How many blanks it starts with. -/
  column : Nat
  /-- The text. -/
  content : List Char
  deriving DecidableEq, Repr

/-- A source line with its number, `none` if it is blank. -/
def lineOf? (number : Nat) (raw : List Char) : Option Line :=
  let content := trimChars raw
  if content.isEmpty then none
  else some { number, column := (raw.takeWhile isBlank).length, content }

/-- A comment that has been started. -/
structure OpenComment where
  /-- Its column. -/
  column : Nat
  /-- Whether it starts with a slash and a star. -/
  loud : Bool
  deriving DecidableEq, Repr

/-- What a source line is. -/
inductive Role where
  /-- Nothing but blanks. -/
  | blank
  /-- A line of a comment, as it is to be written. -/
  | comment (text : List Char)
  /-- A statement. -/
  | statement (line : Line)
  deriving DecidableEq, Repr

/-- Whether a text starts with another. -/
def startsWith (text start : List Char) : Bool :=
  start.isPrefixOf text

/-- The comment that a line starts, if it does. -/
def opens? (line : Line) : Option OpenComment :=
  if startsWith line.content ['/', '/'] then some { column := line.column, loud := false }
  else if startsWith line.content ['/', '*'] then some { column := line.column, loud := true }
  else none

/-- A line that continues a comment. -/
def continued (c : OpenComment) (content : List Char) : List Char :=
  if c.loud then content else '/' :: '/' :: ' ' :: content

/-- The last line of a comment, closed if it needs to be. -/
def closed (c : OpenComment) (text : List Char) : List Char :=
  if c.loud && !startsWith text.reverse ['/', '*'] then text ++ [' ', '*', '/'] else text

/-- Whether a comment goes on in the next line of these that is not blank. -/
def goesOn (c : OpenComment) : List (Option Line) → Bool
  | [] => false
  | none :: rest => goesOn c rest
  | some line :: _ => c.column < line.column

/-- A line of a comment, which is closed unless it goes on. -/
def commentLine (c : OpenComment) (text : List Char) (rest : List (Option Line)) : Role :=
  .comment (if goesOn c rest then text else closed c text)

/-- What the lines of a source are, `current` being the comment before them. -/
def roles (current : Option OpenComment) : List (Option Line) → List Role
  | [] => []
  | none :: rest => .blank :: roles current rest
  | some line :: rest =>
    match current.filter fun c => c.column < line.column with
    | some c => commentLine c (continued c line.content) rest :: roles (some c) rest
    | none =>
      match opens? line with
      | some c => commentLine c line.content rest :: roles (some c) rest
      | none => .statement line :: roles none rest

/-- The blocks that are left when a statement at `column` follows: how many, and
the columns that stay open, innermost first. -/
def leave (column : Nat) : List Nat → Nat × List Nat
  | [] => (0, [])
  | c :: rest =>
    if column < c then
      let (n, kept) := leave column rest
      (n + 1, kept)
    else (0, c :: rest)

/-- The text after a flush arrow. -/
def flushArrow? (content : List Char) : Option (List Char) :=
  match content with
  | '<' :: '-' :: rest =>
    let name := rest.dropWhile isBlank
    if name.isEmpty then none else some name
  | _ => none

/-- The text before a buffer arrow. -/
def bufferArrow? (content : List Char) : Option (List Char) :=
  match content.reverse with
  | '>' :: '-' :: rest =>
    match rest.dropWhile isBlank with
    | [] => none
    | name => some name.reverse
  | _ => none

/-- The content with its short form written out. -/
def longForm (content : List Char) : List Char :=
  let content :=
    match flushArrow? content with
    | some name => "@flush ".toList ++ name
    | none =>
      match bufferArrow? content with
      | some name => "@buffer ".toList ++ name
      | none => content
  match content with
  | '=' :: rest => "@mixin ".toList ++ trimChars rest
  | '+' :: rest => "@include ".toList ++ trimChars rest
  | _ => content

/-- The keywords whose statements have a block, also when it is empty. -/
def blockKeywords : List String :=
  ["@mixin", "@function", "@media", "@supports", "@if", "@else", "@for", "@each", "@while"]

/-- What is left of a text after one piece of a property name: a hole, or a word. -/
def afterPiece? : List Char → Option (List Char)
  | '#' :: '\x7b' :: rest =>
    match rest.dropWhile (· != '\x7d') with
    | _ :: after => some after
    | [] => none
  | c :: rest =>
    if Name.isStart c || c = '*' || c = '-' then some (rest.dropWhile Name.isPart) else none
  | [] => none

/-- What is left of a text after some pieces of a property name, `fuel` bounding
their number. -/
def afterPieces : Nat → List Char → List Char
  | 0, cs => cs
  | fuel + 1, cs =>
    match afterPiece? cs with
    | some rest => afterPieces fuel rest
    | none => cs

/-- Whether a text starts with a property name and a single colon. -/
def isProperty (content : List Char) : Bool :=
  match afterPiece? content with
  | none => false
  | some rest =>
    match (afterPieces rest.length rest).dropWhile isBlank with
    | ':' :: ':' :: _ => false
    | ':' :: _ => true
    | _ => false

/-- What is written after a statement without a block. -/
def ending (content : List Char) : List Char :=
  let empty := [' ', '\x7b', '\x7d']
  match content with
  | '$' :: _ | '@' :: _ =>
    if blockKeywords.any fun k => startsWith content k.toList then empty else [';']
  | _ => if isProperty content then [';'] else empty

/-- A statement in the brace syntax. -/
def braced (content : List Char) (hasBlock : Bool) : List Char :=
  let content := longForm content
  content ++ if hasBlock then [' ', '\x7b'] else ending content

/-- The column of the first statement. -/
def nextColumn? : List Role → Option Nat
  | [] => none
  | .statement line :: _ => some line.column
  | _ :: rest => nextColumn? rest

/-- The lines of the outcome, with `columns` the columns of the open blocks,
innermost first, and the columns that are open at the end. -/
def place (file : String) (first : Bool) (columns : List Nat) :
    List Role → Except Diagnostic (List (List Char) × List Nat)
  | [] => .ok ([], columns)
  | .blank :: rest => do
    let (lines, columns) ← place file first columns rest
    return ([] :: lines, columns)
  | .comment text :: rest => do
    let (lines, columns) ← place file first columns rest
    return (text :: lines, columns)
  | .statement line :: rest =>
    let refuse (cause : Cause) : Except Diagnostic (List (List Char) × List Nat) :=
      .error { cause, span := { file, line := line.number + 1 } }
    let hasBlock := match nextColumn? rest with
      | some next => line.column < next
      | none => false
    let text := braced line.content hasBlock
    if columns.headD 0 < line.column then
      if first then refuse .leadingIndent
      else do
        let (lines, columns) ← place file false (line.column :: columns) rest
        return (text :: lines, columns)
    else
      let (closing, columns) := leave line.column columns
      if columns.headD 0 ≠ line.column then refuse .inconsistentIndent
      else do
        let (lines, columns) ← place file false columns rest
        return (((List.replicate closing ['\x7d', ' ']).flatten ++ text) :: lines, columns)

/-- The lines of the outcome. -/
def outcome (file : String) (source : List (List Char)) :
    Except Diagnostic (List (List Char)) := do
  let lines := source.mapIdx lineOf?
  let (placed, columns) ← place file true [0] (roles none lines)
  let left := columns.length - 1
  return placed ++ if left = 0 then [] else [List.replicate left '\x7d']

/-- The text of some lines, each with a line end; no line is a lone line end. -/
def joinLines (lines : List String) : String :=
  String.intercalate "\n" lines ++ "\n"

/-- Turns a source into the brace syntax. -/
def toBraces (file text : String) : Logged String := do
  match outcome file (splitLines text.toList) with
  | .error d => throw (.diagnostic d)
  | .ok lines => do
    note .debug .indentation ("translated " ++ file ++ " to brace syntax (" ++
      toString lines.length ++ " lines)")
    return joinLines (lines.map String.ofList)

end Indentation

/-- Reads a style sheet in a syntax. -/
def Document.readIn (inputSyntax : Syntax) (file text : String) : Logged Node := do
  match inputSyntax with
  | .braces => Document.read file text
  | .indented => do
    let text ← Indentation.toBraces file text
    Document.read file text

end Stylesheet
