/-
# Diagnostics

A style sheet that cannot be compiled is answered by one `Diagnostic`: the
cause, a value of `Cause`, and the place where it was found.  The wording is in
`Cause.message` alone.  `Diagnostic.locate` fills in a place that is still
unknown and never changes a known one (`locate_of_known`), so that the
innermost node that knows its line decides.

A `Failure` is a diagnostic or one of the few ways in which the numbers of a
style sheet leave the range they can be computed in.
-/

import Stylesheet.Node.Kind
import Stylesheet.Number.Numeric

namespace Stylesheet

/-- A place in a style sheet.  A line that is not positive is unknown. -/
structure Span where
  /-- The name of the file. -/
  file : String := "<string>"
  /-- The line, from 1. -/
  line : Int := 0
  /-- The column, from 1; zero where only the line is known. -/
  column : Int := 0
  deriving DecidableEq, Repr, Inhabited

namespace Span

/-- Whether the line is known. -/
def known (s : Span) : Bool :=
  0 < s.line

/-- The place as `file:line`, with `:column` where it is known. -/
def text (s : Span) : String :=
  let place := s.file ++ ":" ++ toString s.line
  if s.column = 0 then place else place ++ ":" ++ toString s.column

end Span

/-- The families of diagnostics. -/
inductive Category where
  | general
  | malformed
  | misplaced
  | evaluation
  | undefinedVariable
  | undefinedMixin
  | argument
  deriving DecidableEq, Repr

/-- The family that a family belongs to. -/
def Category.parent? : Category → Option Category
  | general => none
  | malformed | evaluation => some general
  | misplaced => some malformed
  | undefinedVariable | undefinedMixin | argument => some evaluation

/-- The rules of nesting. -/
inductive Placement where
  /-- A function holds assignments, results, messages, comments and control directives. -/
  | functionContent
  /-- No import inside a buffer. -/
  | importInBuffer
  /-- An import is at the root. -/
  | importAtRoot
  /-- A declaration is inside something that holds declarations. -/
  | declarationParent
  /-- An extend is inside a rule. -/
  | extendParent
  /-- A mixin is defined at the root. -/
  | mixinAtRoot
  /-- A function is defined at the root. -/
  | functionAtRoot
  /-- A result is inside a function. -/
  | resultInFunction
  /-- A flush has no content. -/
  | flushContent
  deriving DecidableEq, Repr

/-- What a violation of a nesting rule is reported with. -/
def Placement.message : Placement → String
  | functionContent =>
    "Functions can only contain variable declarations and control directives."
  | importInBuffer => "Import directives may not be used within buffers."
  | importAtRoot => "CSS import directives may only be used at the root of a document."
  | declarationParent =>
    "Properties are only allowed within rules, directives, buffers, mixin includes, or other properties."
  | extendParent => "Extend directives may only be used within rules."
  | mixinAtRoot => "Mixins may only be defined at the root of a document."
  | functionAtRoot => "Functions may only be defined at the root of a document."
  | resultInFunction => "@return may only be used within a function."
  | flushContent => "Flush directives may not contain children."

/-- What can be invoked with arguments. -/
inductive Callable where
  | mixin
  | function
  deriving DecidableEq, Repr

/-- The word for what is invoked. -/
def Callable.name : Callable → String
  | mixin => "Mixin"
  | function => "Function"

/-- Why a style sheet cannot be compiled. -/
inductive Cause where
  /-- The text ends inside a statement. -/
  | unexpectedEnd
  /-- The text goes on with something that is no statement. -/
  | unexpected (found : String)
  /-- A rule whose selector is blank. -/
  | missingSelector
  /-- A flush with a body. -/
  | flushBody
  /-- A buffer directive without a name. -/
  | missingBufferName (keyword : String)
  /-- The first statement of an indented sheet is indented. -/
  | leadingIndent
  /-- A statement returns to a column at which no block is open. -/
  | inconsistentIndent
  /-- A node where it may not be. -/
  | misplaced (rule : Placement) (parent child : Kind)
  /-- A flush at the root of content that holds declarations. -/
  | rootFlush (buffer : String)
  /-- A reference to the parent selector where there is none. -/
  | parentReference
  /-- An operation that two values do not have. -/
  | undefinedOperation (left operation right : String)
  /-- Something other than a number is compared. -/
  | notComparable (operand symbol : String)
  /-- Two units that cannot be joined. -/
  | incompatibleUnits (second first symbol : String)
  /-- A product or quotient with a unit that CSS does not have. -/
  | invalidCss (left symbol right : String)
  /-- A divisor is zero. -/
  | divisionByZero
  /-- An operator that is not one. -/
  | unknownOperator (symbol : String)
  /-- A function whose body has ended without a result. -/
  | missingResult (function : String)
  /-- A bound of a loop is not an integer. -/
  | notInteger (operand bound : String)
  /-- The name of a buffer is blank. -/
  | emptyBufferName
  /-- A variable without a value. -/
  | undefinedVariable (name : String)
  /-- A mixin that is not defined. -/
  | undefinedMixin (name : String)
  /-- Keyword arguments for a function that takes none. -/
  | unexpectedKeywords (function : String)
  /-- A wrong number of arguments for a built-in function. -/
  | wrongArguments (function : String)
  /-- An argument that has to be a number. -/
  | numberExpected (operand function : String)
  /-- An argument that has to be a string. -/
  | stringExpected (operand function : String)
  /-- An argument that has to be a number without unit. -/
  | unitlessExpected (operand function : String)
  /-- An index outside a list. -/
  | indexOutOfBounds (index : Int) (length : Nat)
  /-- More arguments than parameters. -/
  | tooManyArguments (what : Callable) (name : String) (parameters arguments : Nat)
  /-- A keyword that is no parameter. -/
  | unknownArgument (what : Callable) (name argument : String)
  /-- A parameter that is bound twice. -/
  | repeatedArgument (what : Callable) (name argument : String)
  /-- A parameter without value. -/
  | missingArgument (what : Callable) (name argument : String)
  /-- A cause that is given by its family and its words. -/
  | other (category : Category) (message hint : String)
  deriving DecidableEq, Repr

namespace Cause

/-- The family of a cause. -/
def category : Cause → Category
  | unexpectedEnd | unexpected _ | missingSelector | flushBody | missingBufferName _
  | leadingIndent | inconsistentIndent => .malformed
  | misplaced .. | rootFlush _ => .misplaced
  | parentReference | undefinedOperation .. | notComparable .. | incompatibleUnits ..
  | invalidCss .. | divisionByZero | unknownOperator _ | missingResult _ | notInteger ..
  | emptyBufferName => .evaluation
  | undefinedVariable _ => .undefinedVariable
  | undefinedMixin _ => .undefinedMixin
  | unexpectedKeywords _ | wrongArguments _ | numberExpected .. | stringExpected ..
  | unitlessExpected .. | indexOutOfBounds .. | tooManyArguments .. | unknownArgument ..
  | repeatedArgument .. | missingArgument .. => .argument
  | other c _ _ => c

/-- The wording of a cause. -/
def message : Cause → String
  | unexpectedEnd => "Invalid CSS: unexpected end of file."
  | unexpected found =>
    "Invalid CSS after \"...\": expected a statement, was \"" ++ found ++ "\""
  | missingSelector => "Invalid CSS: expected selector."
  | flushBody => "Flush directives may not have a body."
  | missingBufferName keyword =>
    "Invalid " ++ keyword ++ " directive: expected a buffer name."
  | leadingIndent => "Indenting at the beginning of the document is illegal."
  | inconsistentIndent => "Inconsistent indentation."
  | misplaced rule _ _ => rule.message
  | rootFlush buffer =>
    "Buffer " ++ buffer ++
      " holds properties and cannot be flushed at the root of a document."
  | parentReference =>
    "Base-level rules cannot contain the parent-selector-referencing character '&'."
  | undefinedOperation left operation right =>
    "Undefined operation: \"" ++ left ++ " " ++ operation ++ " " ++ right ++ "\"."
  | notComparable operand symbol =>
    "\"" ++ operand ++ "\" is not a number for \x60" ++ symbol ++ "'."
  | incompatibleUnits second first symbol =>
    "Incompatible units: '" ++ second ++ "' and '" ++ first ++ "' (" ++ symbol ++ ")."
  | invalidCss left symbol right =>
    left ++ symbol ++ right ++ " isn't a valid CSS value."
  | divisionByZero => "Division by zero."
  | unknownOperator symbol => "Unknown operator '" ++ symbol ++ "'."
  | missingResult function => "Function " ++ function ++ " finished without @return."
  | notInteger operand bound => operand ++ " is not an integer (" ++ bound ++ ")."
  | emptyBufferName => "Buffer name must not be empty."
  | undefinedVariable name => "Undefined variable: \"$" ++ name ++ "\"."
  | undefinedMixin name => "Undefined mixin '" ++ name ++ "'."
  | unexpectedKeywords function =>
    "Function " ++ function ++ " doesn't take keyword arguments."
  | wrongArguments function => "Wrong arguments for " ++ function ++ "()"
  | numberExpected operand function =>
    operand ++ " is not a number for \x60" ++ function ++ "'."
  | stringExpected operand function =>
    operand ++ " is not a string for \x60" ++ function ++ "'."
  | unitlessExpected operand function =>
    operand ++ " is not a unitless number for \x60" ++ function ++ "'."
  | indexOutOfBounds index length =>
    "Index " ++ toString index ++ " out of bounds for list of length " ++
      toString length ++ "."
  | tooManyArguments what name parameters arguments =>
    what.name ++ " " ++ name ++ " takes " ++ toString parameters ++ " argument(s) but " ++
      toString arguments ++ " were passed."
  | unknownArgument what name argument =>
    what.name ++ " " ++ name ++ " doesn't have an argument named $" ++ argument ++ "."
  | repeatedArgument what name argument =>
    what.name ++ " " ++ name ++ " was passed argument $" ++ argument ++
      " both by position and by name."
  | missingArgument what name argument =>
    what.name ++ " " ++ name ++ " is missing argument $" ++ argument ++ "."
  | other _ message _ => message

/-- What the writer of the sheet may do about it, if there is something. -/
def hint : Cause → String
  | flushBody => "write '@flush name;'"
  | other _ _ hint => hint
  | _ => ""

end Cause

/-- A cause and the place where it was found. -/
structure Diagnostic where
  /-- What is wrong. -/
  cause : Cause
  /-- Where it is. -/
  span : Span := {}
  deriving DecidableEq, Repr

namespace Diagnostic

/-- The diagnostic at `span`, unless its own place is known already. -/
def locate (d : Diagnostic) (span : Span) : Diagnostic :=
  if !d.span.known && span.known then { d with span } else d

/-- The diagnostic as `place: error: message`, with the hint on a line of its own. -/
def text (d : Diagnostic) : String :=
  let line := d.span.text ++ ": error: " ++ d.cause.message
  if d.cause.hint.isEmpty then line else line ++ "\n  hint: " ++ d.cause.hint

/-- **A known place stays.** -/
theorem locate_of_known {d : Diagnostic} (h : d.span.known = true) (span : Span) :
    d.locate span = d := by
  simp [locate, h]

@[simp] theorem cause_locate (d : Diagnostic) (span : Span) : (d.locate span).cause = d.cause := by
  unfold locate; split <;> rfl

end Diagnostic

/-- Why a computation has no result. -/
inductive Failure where
  /-- The style sheet is wrong. -/
  | diagnostic (d : Diagnostic)
  /-- A number is outside the range it is needed in. -/
  | range (e : Number.RangeError)
  /-- A node that was built without the expression it needs. -/
  | missingExpression
  /-- A result outside every function. -/
  | strayResult
  /-- An evaluation that went deeper than it was allowed to. -/
  | tooDeep
  deriving DecidableEq, Repr

namespace Failure

/-- The failure of a cause whose place is not known yet. -/
def ofCause (cause : Cause) : Failure :=
  .diagnostic { cause }

/-- The failure at `span`, unless its own place is known already. -/
def locate (span : Span) : Failure → Failure
  | .diagnostic d => .diagnostic (d.locate span)
  | f => f

end Failure

/-- The result of a numeric computation as one that may fail. -/
def liftRange {α : Type} (x : Except Number.RangeError α) : Except Failure α :=
  x.mapError .range

end Stylesheet
