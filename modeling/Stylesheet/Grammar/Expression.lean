/-
# Expressions of the grammar

The parsing expressions for what can stand where a value stands.  From the
loosest to the tightest, the levels are: comma lists, space lists, `or`, `and`,
equality, comparison, sums, products, signs and `not`.  A plus or minus joins
two operands only with spaces on both sides or on neither, so that `a -b` is a
list.

A slash between two number literals does not divide: it is the plain CSS
shorthand, as in `12px/1.5`.  `Expr.product` decides.
-/

import Stylesheet.Grammar.Rule
import Stylesheet.Name
import Stylesheet.Text.Blank
import Stylesheet.Text.Digit

namespace Stylesheet

open Number

/-- The product or quotient of two operands, where a slash between two binary64
literals stays a text. -/
def Expr.product (left : Expr) (op : BinaryOp) (right : Expr) : Expr :=
  match op, left, right with
  | .div, .literal (.number (.real x) u), .literal (.number (.real y) v) =>
    .literal (.word (x.text ++ u ++ "/" ++ y.text ++ v))
  | op, left, right => .binary left op right

/-- The operators of one level, applied from the left. -/
def Expr.chain (first : Expr) (rest : List (BinaryOp × Expr)) : Expr :=
  rest.foldl (fun left (op, right) => .binary left op right) first

/-- One item is itself, several are a list. -/
def Expr.listOf (separator : Separator) (first : Expr) (rest : List Expr) : Expr :=
  if rest.isEmpty then first else .list (first :: rest) separator

/-- The number literal of these digits. -/
def Expr.numberOf (whole decimals unit : List Char) : Expr :=
  let x := Binary64.ofDecimal (Text.numberOf (whole ++ decimals)) decimals.length
  .literal (.number (.real x) (String.ofList unit))

/-- The words `true`, `false` and `null` are values of their own; any other word
is a string. -/
def Expr.ofWord (text : String) : Expr :=
  if text = "true" then .literal (.bool true)
  else if text = "false" then .literal (.bool false)
  else if text = "null" then .literal .null
  else .literal (.word text)

/-- A quoted string, which is a value as long as it has no holes. -/
def Expr.quotedOf (pieces : List (Fragment Expr)) : Expr :=
  let texts := pieces.filterMap fun
    | .text s => some s
    | .hole _ => none
  if texts.length = pieces.length then .literal (.string (String.join texts) true)
  else .interpolation pieces true

namespace Grammar

/-- A rule in the place of an expression. -/
abbrev on {α : Type} (r : Rule α) : Peg Rule α := .call r

/-- A keyword: it does not go on as a longer name. -/
def keyword (text : String) : Peg Rule Unit :=
  .lit text <* .no (on .nameChar)

/-- A name that may start with one hyphen. -/
def hyphenName : Peg Rule String :=
  (fun hyphen c cs => String.ofList (hyphen.toList ++ c :: cs)) <$>
    .opt (.char (· == '-')) <*> .char Name.isStart <*> .span Name.isPart

/-- What follows the separator in a list, as often as it is there. -/
def further {α : Type} (p : Peg Rule α) : Peg Rule (List α) :=
  .star (on .gap *> .lit "," *> on .gap *> p)

/-- `expr, expr, …`. -/
def commaList : Peg Rule Expr :=
  Expr.listOf .comma <$> on .spaceList <*> further (on .spaceList)

/-- `expr expr …`. -/
def spaceList : Peg Rule Expr :=
  Expr.listOf .space <$> on .orExpr <*> .star (on .space *> on .orExpr)

/-- `expr or expr …`. -/
def orExpr : Peg Rule Expr :=
  Expr.chain <$> on .andExpr <*>
    .star ((fun e => (BinaryOp.or, e)) <$>
      (on .gap *> keyword "or" *> on .gap *> on .andExpr))

/-- `expr and expr …`. -/
def andExpr : Peg Rule Expr :=
  Expr.chain <$> on .eqExpr <*>
    .star ((fun e => (BinaryOp.and, e)) <$>
      (on .gap *> keyword "and" *> on .gap *> on .eqExpr))

/-- `expr == expr …`. -/
def eqExpr : Peg Rule Expr :=
  Expr.chain <$> on .relExpr <*>
    .star (Prod.mk <$> (on .gap *> on .eqOp <* on .gap) <*> on .relExpr)

/-- The operators of equality. -/
def eqOp : Peg Rule BinaryOp :=
  BinaryOp.ofSymbol <$> .oneOf "==" ["!="]

/-- `expr < expr …`. -/
def relExpr : Peg Rule Expr :=
  Expr.chain <$> on .addExpr <*>
    .star (Prod.mk <$> (on .gap *> on .relOp <* on .gap) <*> on .addExpr)

/-- The operators of comparison. -/
def relOp : Peg Rule BinaryOp :=
  BinaryOp.ofSymbol <$> .oneOf "<=" [">=", "<", ">"]

/-- `expr + expr …`. -/
def addExpr : Peg Rule Expr :=
  Expr.chain <$> on .mulExpr <*> .star (on .addTail)

/-- A sign and its operand, with spaces around the sign or with none. -/
def addTail : Peg Rule (BinaryOp × Expr) :=
  (Prod.mk <$> (on .space *> on .addOp <* on .space) <*> on .mulExpr)
    <|> (Prod.mk <$> on .addOp <*> on .mulExpr)

/-- The operators of sums. -/
def addOp : Peg Rule BinaryOp :=
  BinaryOp.ofSymbol <$> .oneOf "+" ["-"]

/-- `expr * expr …`. -/
def mulExpr : Peg Rule Expr :=
  (fun first rest => rest.foldl (fun left (op, right) => left.product op right) first) <$>
    on .unary <*> .star (Prod.mk <$> (on .gap *> on .mulOp <* on .gap) <*> on .unary)

/-- The operators of products. -/
def mulOp : Peg Rule BinaryOp :=
  BinaryOp.ofSymbol <$> .oneOf "*" ["/", "%"]

/-- An operand with `not` or a sign before it, or without. -/
def unary : Peg Rule Expr :=
  (Expr.unary .not <$> (on .notOp *> on .unary))
    <|> on .primary
    <|> (Expr.unary <$> on .sign <*> on .unary)

/-- `not`. -/
def notOp : Peg Rule Unit :=
  keyword "not" <* on .gap

/-- The signs. -/
def sign : Peg Rule UnaryOp :=
  UnaryOp.ofSymbol <$> .oneOf "-" ["+"]

/-- What binds tightest. -/
def primary : Peg Rule Expr :=
  on .parens <|> on .rawFunction <|> on .call <|> on .variableUse <|> on .number
    <|> on .quoted <|> on .interpolatedIdent <|> on .color <|> on .important <|> on .ident

/-- `(expr)`. -/
def parens : Peg Rule Expr :=
  .lit "(" *> on .gap *> on .commaList <* on .gap <* .lit ")"

/-- A function whose argument is no expression, such as `url(…)`. -/
def rawFunction : Peg Rule Expr :=
  (fun name inner => .literal (.word (name ++ "(" ++ String.ofList inner ++ ")"))) <$>
    .oneOf "url" ["calc", "-webkit-calc", "-moz-calc"] <*>
    (.lit "(" *> .span (fun c => c != '(' && c != ')') <* .lit ")")

/-- `name(args)`. -/
def call : Peg Rule Expr :=
  (fun name all => .call name all.positional all.keywords) <$>
    on .functionName <*> on .arguments

/-- `(args)`. -/
def arguments : Peg Rule Arguments :=
  (fun args => Arguments.ofList (args.getD [])) <$>
    (.lit "(" *> on .gap *> .opt (on .argList) <* on .gap <* .lit ")")

/-- `$name`. -/
def variableUse : Peg Rule Expr :=
  Expr.variable <$> (.lit "$" *> on .name)

/-- A letter of the basic alphabet. -/
def isLetter (c : Char) : Bool := c.isAlpha

/-- A number with its unit. -/
def number : Peg Rule Expr :=
  (fun (whole, decimals) unit => Expr.numberOf whole decimals (unit.getD [])) <$>
    ((Prod.mk <$> .spanOne Text.isDigit <*>
        ((·.getD []) <$> .opt (.lit "." *> .spanOne Text.isDigit)))
      <|> (Prod.mk [] <$> (.lit "." *> .spanOne Text.isDigit))) <*>
    .opt (.spanOne isLetter <|> ((fun _ => ['%']) <$> .lit "%"))

/-- A quoted string. -/
def quoted : Peg Rule Expr :=
  on .doubleQuoted <|> on .singleQuoted

/-- A piece of the text of a string in these quotes: a run of plain characters,
the character after a backslash, or a number sign that opens no hole. -/
def stringPiece (quote : Char) : Peg Rule (List Char) :=
  .spanOne (fun c => c != quote && c != '\\' && c != '#')
    <|> ((fun c => [c]) <$> (.lit "\\" *> .char fun _ => true))
    <|> ((fun _ => ['#']) <$> (.lit "#" <* .no (.lit "\x7b")))

/-- A string in these quotes. -/
def stringIn (quote : Char) : Peg Rule Expr :=
  Expr.quotedOf <$>
    (.char (· == quote) *>
      .star ((Fragment.hole <$> on .interpolation)
        <|> ((fun pieces => Fragment.text (String.ofList pieces.flatten)) <$>
          .plus (stringPiece quote)))
      <* .char (· == quote))

/-- A word with holes, outside quotes. -/
def interpolatedIdent : Peg Rule Expr :=
  (fun head rest =>
    let pieces := rest.flatMap fun (e, chunk) =>
      Fragment.hole e :: (chunk.map Fragment.text).toList
    .interpolation ((head.map Fragment.text).toList ++ pieces) false) <$>
    .opt (on .identChunk) <*>
    .plus (Prod.mk <$> on .interpolation <*> .opt (on .identChunk))

/-- The text between two holes of a word. -/
def identChunk : Peg Rule String :=
  String.ofList <$> .spanOne Name.isPart

/-- A hexadecimal digit. -/
def isHex (c : Char) : Bool :=
  c.isDigit || ('a' ≤ c && c ≤ 'f') || ('A' ≤ c && c ≤ 'F')

/-- Three to eight hexadecimal digits after a number sign. -/
def color : Peg Rule Expr :=
  let hex := Peg.char isHex
  (fun a b c rest => .literal (.word (String.ofList ('#' :: a :: b :: c :: rest)))) <$>
    (.lit "#" *> hex) <*> hex <*> hex <*> (.upTo 5 hex <* .no (.char Name.isPart))

/-- `!important`. -/
def important : Peg Rule Expr :=
  (fun _ => .literal (.word "!important")) <$>
    (.lit "!" *> .span Text.isSpace *> .lit "important")

/-- A word. -/
def ident : Peg Rule Expr :=
  Expr.ofWord <$> hyphenName

/-- A hole. -/
def interpolation : Peg Rule Expr :=
  .lit "#\x7b" *> on .gap *> on .commaList <* on .gap <* .lit "\x7d"

/-- A name. -/
def name : Peg Rule String :=
  (fun c cs => String.ofList (c :: cs)) <$> .char Name.isStart <*> .span Name.isPart

/-- A character that a name goes on with. -/
def nameChar : Peg Rule Unit :=
  (fun _ => ()) <$> .char Name.isPart

/-- Some space. -/
def space : Peg Rule Unit :=
  (fun _ => ()) <$> .spanOne Text.isSpace

/-- Space or none. -/
def gap : Peg Rule Unit :=
  (fun _ => ()) <$> .span Text.isSpace

end Grammar
end Stylesheet
