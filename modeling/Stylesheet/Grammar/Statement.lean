/-
# Statements of the grammar

The parsing expressions for statements and their parts.  Every node carries the
line of the place where its rule starts.  A keyword at-rule that is not written
as it should be falls back to a directive, and what is no directive to a
declaration or a rule; only `@buffer` and `@flush` never do, they are refused
when their name is missing.
-/

import Stylesheet.Grammar.Expression

namespace Stylesheet
namespace Grammar

/-- The common part of a node that starts at a place. -/
def infoAt (s : Span) : Info :=
  { line := s.line.toNat, file := some s.file }

/-- A node built from the place where its text starts. -/
def stamped {α : Type} (p : Peg Rule (Span → α)) : Peg Rule α :=
  (fun (s, build) => build s) <$> .located p

/-- A node without content of its own. -/
def leaf (head : Head) (s : Span) : Node :=
  .plain (infoAt s) head []

/-- A node with a body that has been built. -/
def branch (head : Head) (body : Built (List Node)) (s : Span) : Built Node := do
  let children ← body
  return .plain (infoAt s) head children

/-- The nodes that some statements build, in order; the first refusal decides. -/
def statements (found : List (Built (Option Node))) : Built (List Node) := do
  let nodes ← found.mapM id
  return nodes.filterMap id

/-- Statements up to the end of the text. -/
def sheet : Peg Rule (Built (List Node)) :=
  statements <$> (on .gap *> .star (on .statement))

/-- A statement that builds a node. -/
def always (p : Peg Rule Node) : Peg Rule (Built (Option Node)) :=
  (fun n => .ok (some n)) <$> p

/-- A statement that builds a node or is refused. -/
def built (p : Peg Rule (Built Node)) : Peg Rule (Built (Option Node)) :=
  (fun b => b.map some) <$> p

/-- One statement and the space after it. -/
def statement : Peg Rule (Built (Option Node)) :=
  (((fun _ => .ok none) <$> on .empty)
    <|> always (on .comment)
    <|> built (on .buffer)
    <|> built (on .flush)
    <|> built (on .badBuffer)
    <|> always (on .assignment)
    <|> built (on .ifStatement)
    <|> built (on .forStatement)
    <|> built (on .eachStatement)
    <|> built (on .whileStatement)
    <|> built (on .media)
    <|> built (on .supports)
    <|> always (on .importStatement)
    <|> always (on .extend)
    <|> always (on .inclusion)
    <|> built (on .mixinDefinition)
    <|> built (on .functionDefinition)
    <|> always (on .returnStatement)
    <|> always (on .debug)
    <|> always (on .warn)
    <|> built (on .directive)
    <|> always (on .declaration)
    <|> built (on .rule))
  <* on .gap

/-- Statements in braces. -/
def block : Peg Rule (Built (List Node)) :=
  statements <$> (.lit "\x7b" *> on .gap *> .star (on .statement) <* .lit "\x7d")

/-- What ends a statement without a block. -/
def stop : Peg Rule Unit :=
  .lit ";" <|> .ahead (.lit "\x7d") <|> on .eof

/-- A comment. -/
def comment : Peg Rule Node :=
  on .loudComment <|> on .silentComment

/-- A comment between slash-star and star-slash. -/
def loudComment : Peg Rule Node :=
  stamped ((fun inner => leaf (.comment ("/*" ++ String.ofList inner ++ "*/") false)) <$>
    (.lit "/*" *> .star ((fun (_, c) => c) <$> .seq (.no (.lit "*/")) (.char fun _ => true))
      <* .lit "*/"))

/-- A comment up to the end of the line. -/
def silentComment : Peg Rule Node :=
  stamped ((fun inner => leaf (.comment ("//" ++ String.ofList inner) true)) <$>
    (.lit "//" *> .span (· != '\n')))

/-- A block, or the end of a statement that has none. -/
def optionalBlock : Peg Rule (Option (Built (List Node))) :=
  (some <$> on .block) <|> ((fun _ => none) <$> on .stop)

/-- `@buffer name { … }` or `@buffer name;`. -/
def buffer : Peg Rule (Built Node) :=
  stamped ((fun name body =>
      branch (.buffer { written := name, resolved := none }) (body.getD (.ok []))) <$>
    (keyword "@buffer" *> on .gap *> on .bufferName) <*> (on .gap *> on .bufferBody))

/-- A flush that has to have no body. -/
def flushOf (name : Template) (body : Option (Built (List Node))) (s : Span) : Built Node :=
  match body with
  | none => .ok (leaf (.flush { written := name, resolved := none } []) s)
  | some b => do
    let _ ← b
    .error { cause := .flushBody, span := s }

/-- `@flush name;`. -/
def flush : Peg Rule (Built Node) :=
  stamped (flushOf <$> (keyword "@flush" *> on .gap *> on .bufferName) <*>
    (on .gap *> on .flushBody))

/-- A buffer directive without a name. -/
def badBuffer : Peg Rule (Built Node) :=
  stamped ((fun word s => .error { cause := .missingBufferName word, span := s }) <$>
    (.oneOf "@buffer" ["@flush"] <* .no (on .nameChar)))

/-- Text of a template. -/
def textPiece (cs : List Char) : Fragment Expr :=
  .text (String.ofList cs)

/-- The name of a buffer: words and holes, with blanks only between them. -/
def bufferName : Peg Rule Template :=
  Template.ofPieces <$> .plus
    ((Fragment.hole <$> on .interpolation)
      <|> (textPiece <$> .spanOne Name.isPart)
      <|> (textPiece <$> (.spanOne (fun c => c == ' ' || c == '\t') <*
        .ahead (.char fun c => Name.isPart c || c == '#'))))

/-- `$name: value;`. -/
def assignment : Peg Rule Node :=
  stamped ((fun name value guarded =>
      leaf (.assignment name (some value) guarded.isSome)) <$>
    (.lit "$" *> on .name <* on .gap <* .lit ":" <* on .gap) <*> on .commaList <*>
    (.opt (on .defaultFlag) <* on .gap <* on .stop))

/-- `!default`. -/
def defaultFlag : Peg Rule Unit :=
  on .gap *> .lit "!default"

/-- An `@if` with the clauses after it. -/
def ifOf (test : Expr) (body : Built (List Node)) (clauses : List (Built Node)) (s : Span) :
    Built Node := do
  let children ← body
  let others ← clauses.mapM id
  return others.foldl (fun n clause => n.addElse clause)
    (.cond (infoAt s) (some test) children none)

/-- `@if test { … }` and its `@else` clauses. -/
def ifStatement : Peg Rule (Built Node) :=
  stamped (ifOf <$> (keyword "@if" *> on .gap *> on .commaList <* on .gap) <*> on .block <*>
    .star (on .elseClause))

/-- `@else { … }` or `@else if test { … }`. -/
def elseClause : Peg Rule (Built Node) :=
  stamped ((fun test body s => do
      let children ← body
      return .cond (infoAt s) test children none) <$>
    (on .gap *> keyword "@else" *> on .gap *> .opt (on .elseTest)) <*> on .block)

/-- `if test`. -/
def elseTest : Peg Rule Expr :=
  keyword "if" *> on .gap *> on .commaList <* on .gap

/-- `@for $var from start through stop { … }`. -/
def forStatement : Peg Rule (Built Node) :=
  stamped ((fun var start exclusive stop body =>
      branch (.forLoop var (some start) (some stop) exclusive) body) <$>
    (keyword "@for" *> on .gap *> .lit "$" *> on .name <* on .gap <* keyword "from" <* on .gap)
    <*> (on .orExpr <* on .gap)
    <*> (on .forKind <* .no (on .nameChar) <* on .gap)
    <*> (on .orExpr <* on .gap)
    <*> on .block)

/-- Whether the end of the range is left out. -/
def forKind : Peg Rule Bool :=
  ((fun _ => false) <$> .lit "through") <|> ((fun _ => true) <$> .lit "to")

/-- `@each $var in list { … }`. -/
def eachStatement : Peg Rule (Built Node) :=
  stamped ((fun var list body => branch (.eachLoop var (some list)) body) <$>
    (keyword "@each" *> on .gap *> .lit "$" *> on .name <* on .gap <* keyword "in" <* on .gap)
    <*> (on .commaList <* on .gap) <*> on .block)

/-- `@while test { … }`. -/
def whileStatement : Peg Rule (Built Node) :=
  stamped ((fun test body => branch (.whileLoop (some test)) body) <$>
    (keyword "@while" *> on .gap *> on .commaList <* on .gap) <*> on .block)

/-- `@media query { … }`. -/
def media : Peg Rule (Built Node) :=
  stamped ((fun query body => branch (.media query none) body) <$>
    (keyword "@media" *> on .gap *> on .atValue) <*> on .block)

/-- `@supports condition { … }`. -/
def supports : Peg Rule (Built Node) :=
  stamped ((fun condition body => branch (.supports condition none) body) <$>
    (keyword "@supports" *> on .gap *> on .atValue) <*> on .block)

/-- `@import uri;`. -/
def importStatement : Peg Rule Node :=
  stamped ((fun uri => leaf (.importSheet (String.ofList (Text.trimChars uri)))) <$>
    (keyword "@import" *> on .gap *>
      .spanOne (fun c => c != ';' && c != '\x7b' && c != '\x7d') <* on .stop))

/-- `@extend selector;`. -/
def extend : Peg Rule Node :=
  stamped ((fun selector => leaf (.extend selector none)) <$>
    (keyword "@extend" *> on .gap *> on .atValue <* on .stop))

/-- `@include name(args);`. -/
def inclusion : Peg Rule Node :=
  stamped ((fun name args =>
      let all := args.getD {}
      leaf (.inclusion name all.positional all.keywords)) <$>
    (keyword "@include" *> on .gap *> on .name <* on .gap) <*>
    (.opt (on .callArgs) <* on .gap <* on .stop))

/-- `@mixin name(params) { … }`. -/
def mixinDefinition : Peg Rule (Built Node) :=
  stamped ((fun name params body => branch (.mixin name (params.getD [])) body) <$>
    (keyword "@mixin" *> on .gap *> on .name <* on .gap) <*>
    (.opt (on .params) <* on .gap) <*> on .block)

/-- `@function name(params) { … }`. -/
def functionDefinition : Peg Rule (Built Node) :=
  stamped ((fun name params body => branch (.function name (params.getD [])) body) <$>
    (keyword "@function" *> on .gap *> on .name <* on .gap) <*>
    (.opt (on .params) <* on .gap) <*> on .block)

/-- A keyword, an expression and the end of the statement. -/
def keywordValue (word : String) (head : Option Expr → Head) : Peg Rule Node :=
  stamped ((fun value => leaf (head (some value))) <$>
    (keyword word *> on .gap *> on .commaList <* on .gap <* on .stop))

/-- `@return value;`. -/
def returnStatement : Peg Rule Node :=
  keywordValue "@return" .result

/-- `@debug value;`. -/
def debug : Peg Rule Node :=
  keywordValue "@debug" .debug

/-- `@warn value;`. -/
def warn : Peg Rule Node :=
  keywordValue "@warn" .warn

/-- An at-rule of any other name. -/
def directive : Peg Rule (Built Node) :=
  stamped ((fun name value body =>
      let prelude := Template.ofPieces (.text ("@" ++ name) :: value.getD [])
      branch (.directive prelude none body.isSome) (body.getD (.ok []))) <$>
    (.lit "@" *> on .name) <*> .opt (on .atValue) <*> on .directiveBody)

/-- The prelude of an at-rule. -/
def atValue : Peg Rule Template :=
  Template.ofPieces <$> .plus
    ((Fragment.hole <$> on .interpolation)
      <|> (textPiece <$> .spanOne (fun c =>
        c != '\x7b' && c != '\x7d' && c != ';' && c != '#'))
      <|> ((fun _ => .text "#") <$> (.lit "#" <* .no (.lit "\x7b"))))

/-- `(params)`. -/
def params : Peg Rule (List Parameter) :=
  (·.getD []) <$> (.lit "(" *> on .gap *> .opt (on .paramList) <* on .gap <* .lit ")")

/-- `param, param, …`. -/
def paramList : Peg Rule (List Parameter) :=
  List.cons <$> on .param <*> further (on .param)

/-- `$name` or `$name: default`. -/
def param : Peg Rule Parameter :=
  Prod.mk <$> (.lit "$" *> on .name) <*> .opt (on .paramDefault)

/-- `: default`. -/
def paramDefault : Peg Rule Expr :=
  on .gap *> .lit ":" *> on .gap *> on .spaceList

/-- `(args)` of an inclusion. -/
def callArgs : Peg Rule Arguments :=
  on .arguments

/-- `arg, arg, …`. -/
def argList : Peg Rule (List Argument) :=
  List.cons <$> on .arg <*> further (on .arg)

/-- `$name: value` or `value`. -/
def arg : Peg Rule Argument :=
  on .keywordArg <|> (Argument.positional <$> on .spaceList)

/-- `$name: value`. -/
def keywordArg : Peg Rule Argument :=
  Argument.keyword <$> (.lit "$" *> on .name <* on .gap <* .lit ":" <* on .gap) <*>
    on .spaceList

/-- `name: value;`. -/
def declaration : Peg Rule Node :=
  stamped ((fun name value => leaf (.declaration name (some value) none none)) <$>
    (on .propertyName <* on .gap <* .lit ":" <* .no (.lit ":") <* on .gap) <*>
    (on .commaList <* on .gap <* on .stop))

/-- The name of a property: words and holes. -/
def propertyName : Peg Rule Template :=
  Template.ofPieces <$> .plus
    ((Fragment.hole <$> on .interpolation)
      <|> ((fun c cs => textPiece (c :: cs)) <$>
        .char (fun c => Name.isStart c || c == '*' || c == '-') <*> .span Name.isPart))

/-- `selector { … }`. -/
def rule : Peg Rule (Built Node) :=
  stamped ((fun selector body => branch (.rule selector none) body) <$>
    on .selector <*> on .block)

/-- The selector of a rule. -/
def selector : Peg Rule Template :=
  Template.ofPieces <$> .plus
    ((Fragment.hole <$> on .interpolation)
      <|> (textPiece <$> .spanOne (fun c =>
        c != '\x7b' && c != '\x7d' && c != ';' && c != '#' && c != '/'))
      <|> ((fun _ => .text "#") <$> (.lit "#" <* .no (.lit "\x7b")))
      <|> ((fun _ => .text "/") <$>
        (.lit "/" <* .no (.char fun c => c == '/' || c == '*'))))

end Grammar
end Stylesheet
