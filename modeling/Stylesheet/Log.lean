/-
# The log

Every stage of a compilation leaves notes: warnings for the writer of the
sheet, and details for one who follows the work.  A note has a level, the
stage that left it and a text; `Log.visible` keeps what a verbosity shows.
Notes survive a failure, so a stage that may fail runs in `Logged`.
-/

import Stylesheet.Diagnostic
import Stylesheet.Text.Quoted

namespace Stylesheet

/-- How much a note matters. -/
inductive Level where
  | debug
  | info
  | warning
  | error
  deriving DecidableEq, Repr

namespace Level

/-- The word for a level. -/
def name : Level → String
  | debug => "DEBUG"
  | info => "INFO"
  | warning => "WARNING"
  | error => "ERROR"

/-- The place of a level in the order of importance. -/
def rank : Level → Nat
  | debug => 0
  | info => 1
  | warning => 2
  | error => 3

/-- The least level that a verbosity shows: warnings, then what is done, then
every detail. -/
def threshold (verbosity : Nat) : Level :=
  match verbosity with
  | 0 => warning
  | 1 => info
  | _ => debug

end Level

/-- What leaves notes. -/
inductive Stage where
  | parsing
  | indentation
  | scopes
  | evaluation
  | layout
  | engine
  | program
  deriving DecidableEq, Repr

/-- The name that a stage signs its notes with. -/
def Stage.name : Stage → String
  | parsing => "sassbuf.parser"
  | indentation => "sassbuf.indented"
  | scopes => "sassbuf.environment"
  | evaluation => "sassbuf.perform"
  | layout => "sassbuf.cssize"
  | engine => "sassbuf.engine"
  | program => "sassbuf"

/-- One note. -/
structure Note where
  /-- How much it matters. -/
  level : Level
  /-- Who left it. -/
  stage : Stage
  /-- What it says. -/
  text : String
  deriving DecidableEq, Repr

/-- The notes of a run, the first one first. -/
abbrev Log := Array Note

namespace Log

/-- The notes that a verbosity shows. -/
def visible (log : Log) (verbosity : Nat) : Log :=
  log.filter fun note => (Level.threshold verbosity).rank ≤ note.level.rank

end Log

/-- A computation that leaves notes and may fail. -/
abbrev Logged := ExceptT Failure (StateM Log)

/-- Leaves one note. -/
def note (level : Level) (stage : Stage) (text : String) : Logged Unit :=
  modify fun log => log.push { level, stage, text }

end Stylesheet
