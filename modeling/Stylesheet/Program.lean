/-
# The program

`Program.run` does what the arguments ask for on a file system and reports what
is to be printed and the exit code: 0 when all went well, 1 when the style sheet
is wrong, 2 when a file cannot be read or written or the arguments are wrong.
-/

import Stylesheet.Compile
import Stylesheet.Program.Arguments
import Stylesheet.Program.File

namespace Stylesheet
namespace Program

/-- What is printed on a channel. -/
inductive Printed where
  /-- A text. -/
  | text (s : String)
  /-- How the program is used. -/
  | usage
  deriving DecidableEq, Repr

/-- What the program has done. -/
structure Report where
  /-- The exit code. -/
  code : Nat
  /-- What goes to the standard output. -/
  output : Printed := .text ""
  /-- What goes to the standard error output. -/
  errors : Printed := .text ""
  deriving DecidableEq, Repr

/-- The name and version of the program. -/
def versionLine : String := "sassbuf 0.1.0\n"

/-- A level in five characters. -/
def levelTag (l : Level) : String :=
  String.ofList ((l.name.toList ++ [' ', ' ', ' ', ' ', ' ']).take 5)

/-- A note on a line of its own. -/
def noteLine (n : Note) : String :=
  "[" ++ levelTag n.level ++ "] " ++ n.stage.name ++ ": " ++ n.text ++ "\n"

/-- The notes that a verbosity shows, as text. -/
def notesText (log : Log) (verbosity : Nat) : String :=
  String.join ((log.visible verbosity).toList.map noteLine)

/-- The note about a file that cannot be used. -/
def fileNote (verb path : String) (e : FileError) : Note :=
  { level := .error, stage := .program,
    text := "cannot " ++ verb ++ " " ++ path ++ ": " ++ e.text }

/-- Why the program stops without a report. -/
inductive Halt where
  /-- A computation has no result. -/
  | failure (f : Failure)
  /-- A path is none. -/
  | path (fault : FilePath.Fault)
  /-- The file for the text is not told. -/
  | noDestination
  deriving DecidableEq, Repr

/-- The words for a failure that is no diagnostic. -/
def failureText : Failure → String
  | .diagnostic d => d.text
  | .range .overflow => "error: a number is too large"
  | .range .undefined => "error: not a number"
  | .missingExpression => "error: an expression is missing"
  | .strayResult => "error: a result outside every function"
  | .tooDeep => "error: nested too deeply"

/-- The words for a halt. -/
def haltText : Halt → String
  | .failure f => failureText f
  | .path .endMark => "error: a path holds a null character"
  | .path .unknownHome => "error: a home directory is not known"
  | .noDestination => "error: the output file is not told"

/-- The options of a command for a source with a name. -/
def optionsFor (c : Command) (file : String) : Options :=
  let inputSyntax := c.inputSyntax.getD (Syntax.ofFile file)
  match c.task with
  | .compile style quiet _ => { style, inputSyntax, file, quiet }
  | .tree => { inputSyntax, file }

/-- The text that a command makes of a source. -/
def textFor (c : Command) (o : Options) (source : String) : Logged String :=
  match c.task with
  | .compile .. => compile o source
  | .tree => do
    let tree ← dump o source
    return tree ++ "\n"

/-- Where the text of a command goes. -/
def destination (c : Command) : Destination :=
  match c.task with
  | .compile _ _ d => d
  | .tree => .output

variable {m : Type → Type} [Monad m]

/-- A text as a path that can be used. -/
def usable (fs : FileSystem m) (text : String) : Except Halt String :=
  (FilePath.ofText fs.home text).mapError .path

/-- The source of a command, and the name it is reported under. -/
def readSource (fs : FileSystem m) (path : String) :
    ExceptT Halt m (Except FileError (String × String)) := do
  if path = "-" then
    let text ← fs.standardInput
    return .ok (text, "<stdin>")
  else
    let path ← usable fs path
    let content ← fs.read path
    return content.map fun text => (text, FilePath.plain path)

/-- Brings the text of a command to its destination; `notes` have been left before. -/
def deliver (fs : FileSystem m) (notes text : String) : Destination → ExceptT Halt m Report
  | .output => return { code := 0, output := .text text, errors := .text notes }
  | .missing => throw .noDestination
  | .file path => do
    match ← fs.write (← usable fs path) text with
    | .ok () => return { code := 0, errors := .text notes }
    | .error e =>
      return { code := 2, errors := .text (notes ++ noteLine (fileNote "write" path e)) }

/-- Does what a command asks for. -/
def execute (fs : FileSystem m) (c : Command) : ExceptT Halt m Report := do
  match ← readSource fs c.source with
  | .error e =>
    return { code := 2, errors := .text (noteLine (fileNote "read" c.source e)) }
  | .ok (source, file) =>
    let (outcome, log) := (textFor c (optionsFor c file) source).run.run #[]
    let notes := notesText log c.verbosity
    match outcome with
    | .error (.diagnostic d) =>
      return { code := 1, errors := .text (notes ++ d.text ++ "\n") }
    | .error f => throw (.failure f)
    | .ok text => deliver fs notes text (destination c)

/-- **What the program does with its arguments.** -/
def run (fs : FileSystem m) (args : List String) : ExceptT Halt m Report :=
  match Command.parse args with
  | .ok c => execute fs c
  | .error .help => return { code := 0, output := .usage }
  | .error .version => return { code := 0, output := .text versionLine }
  | .error .misuse => return { code := 2, errors := .usage }

end Program
end Stylesheet
