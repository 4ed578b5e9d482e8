/-
# The command line of the program

The one place where files are touched: `disk` reads and writes them, and `main`
prints what `Program.run` reports.
-/

import Stylesheet.Program

namespace Stylesheet
namespace Main

/-- How the program is used. -/
def usage : String :=
  "usage: sassbuf [-h] [--version] [-v] COMMAND ...\n\n" ++
    "commands:\n" ++
    "  compile [--syntax SYNTAX] [-o FILE] [-s STYLE] [-q] SOURCE\n" ++
    "      Compile a stylesheet to CSS.\n" ++
    "  tree [--syntax SYNTAX] SOURCE\n" ++
    "      Parse a stylesheet and dump the tree.\n"

/-- What is wrong with a file that an operation has failed on. -/
def faultOf (e : IO.Error) : FileFault :=
  match e with
  | .noFileOrDirectory .. => .missing
  | .alreadyExists .. => .exists
  | .inappropriateType .. => .isDirectory
  | e => .other e.toString

/-- An operation on a file whose errors are values. -/
def guarded {α : Type} (path : String) (x : IO α) : IO (Except FileError α) := do
  match ← x.toBaseIO with
  | .ok a => return .ok a
  | .error e => return .error { fault := faultOf e, path := FilePath.plain path }

/-- The directory that a path lies in. -/
def directoryOf (path : String) : String :=
  let inner := String.intercalate "/" (FilePath.components path).dropLast
  if path.startsWith "/" then "/" ++ inner else inner

/-- The files of the machine, with a home directory. -/
def disk (home : String) : FileSystem IO where
  read path := guarded path do
    let text ← IO.FS.readFile path
    return unifyLineEnds text
  write path content := guarded path do
    let directory := directoryOf path
    if !directory.isEmpty then IO.FS.createDirAll directory
    IO.FS.writeFile path content
  standardInput := do
    let text ← (← IO.getStdin).readToEnd
    return unifyLineEnds text
  home := home

/-- What is printed for a channel. -/
def printedText : Program.Printed → String
  | .text s => s
  | .usage => usage

end Main
end Stylesheet

open Stylesheet in
/-- Runs the program. -/
def main (args : List String) : IO UInt32 := do
  let home := (← IO.getEnv "HOME").getD "/"
  match ← (Program.run (Main.disk home) args).run with
  | .ok report =>
    IO.print (Main.printedText report.output)
    IO.eprint (Main.printedText report.errors)
    return report.code.toUInt32
  | .error h =>
    IO.eprintln (Program.haltText h)
    return 1
