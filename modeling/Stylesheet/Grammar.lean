/-
# The grammar of the brace syntax

`Grammar.body` gives every rule its parsing expression; a match of `Rule.sheet`
reads a whole style sheet and a match of `Rule.commaList` an expression.

Several alternatives may try the same block or the same parentheses, one after the
other, and each of the alternatives inside may do so again.  So what is in brackets
is matched once for each bracket of a text, the last one first
(`Grammar.bracketTable`), and a match of the text looks it up.  No rule leads back to
itself but through a bracket, `not` or a sign, so nothing else is worth keeping.

`Document.parse` and `Expr.parse` read texts.  A style sheet always matches up
to some statement, and the place where it stops is where the text is refused; an
expression that does not match at all is refused at the farthest place where
some rule was tried in vain.
-/

import Stylesheet.Grammar.Statement
import Stylesheet.Peg.Match
import Stylesheet.Log

namespace Stylesheet

namespace Grammar

/-- The parsing expression of a rule. -/
def body {α : Type} : Rule α → Peg Rule α
  | .sheet => sheet
  | .statement => statement
  | .block => block
  | .stop => stop
  | .eof => .eof
  | .empty => .lit ";"
  | .comment => comment
  | .loudComment => loudComment
  | .silentComment => silentComment
  | .buffer => buffer
  | .bufferBody => optionalBlock
  | .flush => flush
  | .flushBody => optionalBlock
  | .badBuffer => badBuffer
  | .bufferName => bufferName
  | .assignment => assignment
  | .defaultFlag => defaultFlag
  | .ifStatement => ifStatement
  | .elseClause => elseClause
  | .elseTest => elseTest
  | .forStatement => forStatement
  | .forKind => forKind
  | .eachStatement => eachStatement
  | .whileStatement => whileStatement
  | .media => media
  | .supports => supports
  | .importStatement => importStatement
  | .extend => extend
  | .inclusion => inclusion
  | .mixinDefinition => mixinDefinition
  | .functionDefinition => functionDefinition
  | .returnStatement => returnStatement
  | .debug => debug
  | .warn => warn
  | .directive => directive
  | .directiveBody => optionalBlock
  | .atValue => atValue
  | .params => params
  | .paramList => paramList
  | .param => param
  | .paramDefault => paramDefault
  | .callArgs => callArgs
  | .argList => argList
  | .arg => arg
  | .keywordArg => keywordArg
  | .declaration => declaration
  | .propertyName => propertyName
  | .rule => rule
  | .selector => selector
  | .commaList => commaList
  | .spaceList => spaceList
  | .orExpr => orExpr
  | .andExpr => andExpr
  | .eqExpr => eqExpr
  | .eqOp => eqOp
  | .relExpr => relExpr
  | .relOp => relOp
  | .addExpr => addExpr
  | .addTail => addTail
  | .addOp => addOp
  | .mulExpr => mulExpr
  | .mulOp => mulOp
  | .unary => unary
  | .notOp => notOp
  | .sign => sign
  | .primary => primary
  | .parens => parens
  | .rawFunction => rawFunction
  | .call => call
  | .arguments => arguments
  | .functionName => hyphenName
  | .variableUse => variableUse
  | .number => number
  | .quoted => quoted
  | .doubleQuoted => stringIn '"'
  | .singleQuoted => stringIn '\''
  | .interpolatedIdent => interpolatedIdent
  | .identChunk => identChunk
  | .color => color
  | .important => important
  | .ident => ident
  | .interpolation => interpolation
  | .name => name
  | .nameChar => nameChar
  | .space => space
  | .gap => gap

/-- A depth of recursion that no match of the grammar reaches: a rule reads
something before it is tried again, and no rule is nested deeper than this. -/
def fuelFor (text : List Char) : Nat :=
  (text.length + 1) * 4096

/-- What the rules for brackets come to at a place of a text. -/
structure Brackets where
  /-- The outcome of a block. -/
  block : Outcome (Built (List Node)) := .fail
  /-- The outcome of an expression in parentheses. -/
  parens : Outcome Expr := .fail
  /-- The outcome of the arguments of a call. -/
  arguments : Outcome Arguments := .fail
  /-- The outcome of a hole. -/
  interpolation : Outcome Expr := .fail

/-- The outcome that is kept for a rule. -/
def Brackets.outcome? (b : Brackets) {α : Type} : Rule α → Option (Outcome α)
  | .block => some b.block
  | .parens => some b.parens
  | .arguments => some b.arguments
  | .interpolation => some b.interpolation
  | _ => none

/-- The attempts of the rules for brackets in expressions at a place of a text. -/
structure BracketAttempts where
  /-- The attempt of an expression in parentheses. -/
  parens : Peg.Attempt Expr := { outcome := .fail }
  /-- The attempt of the arguments of a call. -/
  arguments : Peg.Attempt Arguments := { outcome := .fail }
  /-- The attempt of a hole. -/
  interpolation : Peg.Attempt Expr := { outcome := .fail }

/-- The attempt that is kept for a rule. -/
def BracketAttempts.attempt? (b : BracketAttempts) {α : Type} :
    Rule α → Option (Peg.Attempt α)
  | .parens => some b.parens
  | .arguments => some b.arguments
  | .interpolation => some b.interpolation
  | _ => none

/-- Whether a rule is written out of another one only for the sake of the table: it
is no place of its own in a refusal. -/
def isPart {α : Type} : Rule α → Bool
  | .arguments => true
  | _ => false

/-- The grammar, with what is known about the brackets at some places. -/
def rules (outcomes : Array Brackets) (attempts : Array BracketAttempts) : Peg.Rules Rule where
  body := body
  isPart := isPart
  known := fun r c => outcomes[c.left]?.bind fun b => b.outcome? r
  tried := fun r c => attempts[c.left]?.bind fun b => b.attempt? r

/-- What the rules for brackets come to at a place, given what they come to later.
Each of them starts with its bracket. -/
def bracketsAt (fuel : Nat) (later : Array Brackets) (c : Cursor) : Brackets :=
  match c.rest with
  | '\x7b' :: _ => { block := Peg.run (rules later #[]) fuel (body .block) c }
  | '(' :: _ =>
    { parens := Peg.run (rules later #[]) fuel (body .parens) c
      arguments := Peg.run (rules later #[]) fuel (body .arguments) c }
  | '#' :: _ => { interpolation := Peg.run (rules later #[]) fuel (body .interpolation) c }
  | _ => {}

/-- What the rules for brackets come to in a text. -/
def bracketTable (fuel : Nat) (start : Cursor) : Array Brackets :=
  Peg.table (bracketsAt fuel) start

/-- The attempts of the rules for brackets in expressions at a place, given those for
the later places. -/
def attemptsAt (fuel : Nat) (later : Array BracketAttempts) (c : Cursor) : BracketAttempts :=
  match c.rest with
  | '(' :: _ =>
    { parens := Peg.attempt (rules #[] later) fuel (body .parens) c
      arguments := Peg.attempt (rules #[] later) fuel (body .arguments) c }
  | '#' :: _ =>
    { interpolation := Peg.attempt (rules #[] later) fuel (body .interpolation) c }
  | _ => {}

/-- The attempts of the rules for brackets in expressions in a text. -/
def attemptTable (fuel : Nat) (start : Cursor) : Array BracketAttempts :=
  Peg.table (attemptsAt fuel) start

end Grammar

/-- The refusal of a text of which `left` characters are left. -/
def refusalAt (file : String) (text : List Char) (left : Nat) : Diagnostic :=
  let before := text.take (text.length - left)
  let after := text.drop (text.length - left)
  let found := (after.take 20).takeWhile (· != '\n')
  { cause := if after.isEmpty then .unexpectedEnd else .unexpected (String.ofList found)
    span := {
      file
      line := before.count '\n' + 1
      column := (before.reverse.takeWhile (· != '\n')).length + 1 } }

/-- The style sheet that a text in the brace syntax is. -/
def Document.parse (file text : String) : Except Diagnostic Node :=
  let chars := text.toList
  let fuel := Grammar.fuelFor chars
  let start := Cursor.start file chars
  let rules := Grammar.rules (Grammar.bracketTable fuel start) #[]
  match Peg.run rules fuel (.call Rule.sheet) start with
  | .ok nodes next =>
    if next.rest.isEmpty then do
      let children ← nodes
      return .plain {} .root children
    else .error (refusalAt file chars next.left)
  | _ => .error (refusalAt file chars chars.length)

/-- The name that a lone expression is reported under. -/
def Expr.fileName : String := "<expression>"

/-- The expression that a text is, without the blanks around it. -/
def Expr.parse (text : String) : Except Diagnostic Expr :=
  let chars := Text.trimChars text.toList
  let fuel := Grammar.fuelFor chars
  let start := Cursor.start Expr.fileName chars
  let rules := Grammar.rules #[] (Grammar.attemptTable fuel start)
  let attempt := Peg.attempt rules fuel (.call Rule.commaList) start
  match attempt.outcome with
  | .ok e next =>
    if next.rest.isEmpty then .ok e
    else .error (refusalAt Expr.fileName chars next.left)
  | _ => .error (refusalAt Expr.fileName chars (attempt.left.getD chars.length))

/-- Reads a style sheet in the brace syntax. -/
def Document.read (file text : String) : Logged Node := do
  match Document.parse file text with
  | .ok root =>
    note .debug .parsing ("parsed " ++ file ++ ": " ++ toString root.children.length ++
      " top-level node(s)")
    return root
  | .error d => throw (.diagnostic d)

end Stylesheet
