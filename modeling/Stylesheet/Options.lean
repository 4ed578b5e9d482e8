/-
# Options

How one style sheet is compiled: the style of the output, the syntax of the
input, the name it is reported under, whether `@warn` is silent, and the text of
one level of indentation.  `Options.warnings` tells what is odd about them.
-/

import Stylesheet.Text.Blank

namespace Stylesheet

/-- The style of the output. -/
inductive Style where
  | expanded
  | compressed
  deriving DecidableEq, Repr

namespace Style

/-- The word for a style. -/
def name : Style → String
  | expanded => "expanded"
  | compressed => "compressed"

/-- The style that a word stands for. -/
def ofName? (name : String) : Option Style :=
  [expanded, compressed].find? (·.name == name)

end Style

/-- The syntax of the input: braces or indentation. -/
inductive Syntax where
  | braces
  | indented
  deriving DecidableEq, Repr

namespace Syntax

/-- The word for a syntax. -/
def name : Syntax → String
  | braces => "scss"
  | indented => "sass"

/-- The syntax that a word stands for. -/
def ofName? (name : String) : Option Syntax :=
  [braces, indented].find? (·.name == name)

/-- The syntax of a file by the end of its name. -/
def ofFile (file : String) : Syntax :=
  if file.endsWith ".sass" then indented else braces

end Syntax

/-- How a style sheet is compiled. -/
structure Options where
  /-- The style of the output. -/
  style : Style := .expanded
  /-- The syntax of the input. -/
  inputSyntax : Syntax := .braces
  /-- The name that the input is reported under. -/
  file : String := "<string>"
  /-- Whether `@warn` is silent. -/
  quiet : Bool := false
  /-- One level of indentation. -/
  indent : String := "  "
  deriving DecidableEq, Repr, Inhabited

/-- What is odd about some options. -/
def Options.warnings (o : Options) : List String :=
  (if (Text.trim o.indent).isEmpty then [] else ["indent must contain only whitespace"]) ++
    (if o.file.isEmpty then ["filename should not be empty"] else [])

end Stylesheet
