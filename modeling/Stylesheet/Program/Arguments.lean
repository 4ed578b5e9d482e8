/-
# The command line

`Command.parse` reads the arguments of the program:

    sassbuf [-h] [--version] [-v] COMMAND …
    sassbuf compile [-h] [--syntax S] [-o FILE] [-s STYLE] [-q] SOURCE
    sassbuf tree [-h] [--syntax S] SOURCE

A long flag can be shortened as long as one flag is meant, and takes its value
after an equals sign or as the next argument; short flags without values can be
joined, and a short flag takes its value directly after it or as the next
argument.  After two hyphens nothing is a flag; joined to a flag, two hyphens stand
for no value.

What cannot be read stops with `Stop.misuse`, and so does everything that is left
over once the rest has been read; a request for help stops at once.  An argument
that can be short for two flags is misuse wherever it stands, even after such a
request.
-/

import Stylesheet.Options
import Stylesheet.Text.Digit

namespace Stylesheet

/-- Why there is no command to run. -/
inductive Stop where
  /-- The arguments are wrong. -/
  | misuse
  /-- Help is asked for. -/
  | help
  /-- The version is asked for. -/
  | version
  deriving DecidableEq, Repr

/-- Where a text goes. -/
inductive Destination where
  /-- To the standard output. -/
  | output
  /-- To a file. -/
  | file (path : String)
  /-- To a file that is not told. -/
  | missing
  deriving DecidableEq, Repr

/-- What the program is asked to do. -/
inductive Task where
  /-- To write the CSS of a style sheet to a destination. -/
  | compile (style : Style) (quiet : Bool) (destination : Destination)
  /-- To show the tree of a style sheet. -/
  | tree
  deriving DecidableEq, Repr

/-- A task on a source. -/
structure Command where
  /-- The task. -/
  task : Task
  /-- The source, a path or a hyphen. -/
  source : String
  /-- The syntax of the source, if it is told. -/
  inputSyntax : Option Syntax
  /-- How much the program is to tell about its work. -/
  verbosity : Nat
  deriving DecidableEq, Repr

namespace Command

/-- The flags. -/
inductive Flag where
  | help
  | version
  | verbose
  | inputSyntax
  | output
  | style
  | quiet
  deriving DecidableEq, Repr

/-- Whether a flag takes a value. -/
def Flag.takesValue : Flag → Bool
  | inputSyntax | output | style => true
  | _ => false

/-- The spellings of some flags. -/
abbrev Spellings := List (String × Flag)

/-- The flags before the command. -/
def mainFlags : Spellings :=
  [("-h", .help), ("--help", .help), ("--version", .version), ("-v", .verbose),
    ("--verbose", .verbose)]

/-- The flags of `compile`. -/
def compileFlags : Spellings :=
  [("-h", .help), ("--help", .help), ("--syntax", .inputSyntax), ("-o", .output),
    ("--output", .output), ("-s", .style), ("--style", .style), ("-q", .quiet),
    ("--quiet", .quiet)]

/-- The flags of `tree`. -/
def treeFlags : Spellings :=
  [("-h", .help), ("--help", .help), ("--syntax", .inputSyntax)]

/-- What an argument is. -/
inductive Token where
  /-- No flag. -/
  | word (text : String)
  /-- A flag, whether it is spelled short, and the text that is joined to it. -/
  | flag (flag : Flag) (short : Bool) (joined : Option String)
  /-- It looks like a flag but is none. -/
  | unknown
  /-- It can be short for more than one flag. -/
  | ambiguous
  /-- The two hyphens after which nothing is a flag. -/
  | separator
  deriving DecidableEq, Repr

/-- A text cut at its first equals sign. -/
def cutAtEquals (s : String) : String × Option String :=
  let cs := s.toList
  let before := cs.takeWhile (· != '=')
  match cs.drop before.length with
  | [] => (s, none)
  | _ :: after => (String.ofList before, some (String.ofList after))

/-- Whether a flag is spelled with one hyphen. -/
def isShort (s : String) : Bool :=
  !s.startsWith "--"

/-- Whether some characters are a number: digits, or a point with digits after it and
perhaps before it.  A line feed at the end does not count. -/
def isNumber (cs : List Char) : Bool :=
  let cs := if cs.getLast? = some '\n' then cs.dropLast else cs
  let whole := cs.takeWhile Text.isDigit
  match cs.drop whole.length with
  | [] => !whole.isEmpty
  | '.' :: decimals => !decimals.isEmpty && decimals.all Text.isDigit
  | _ => false

/-- Whether a text is a negative number, such as `-1` or `-.5`. -/
def isNegativeNumber (s : String) : Bool :=
  match s.toList with
  | '-' :: cs => isNumber cs
  | _ => false

/-- The flags that a text can be short for. -/
def candidates (flags : Spellings) (s : String) : List Token :=
  match s.toList with
  | '-' :: '-' :: _ =>
    let (name, joined) := cutAtEquals s
    (flags.filter fun (spelling, _) => name.isPrefixOf spelling).map fun (_, f) =>
      .flag f false joined
  | '-' :: c :: joined =>
    (flags.filter fun (spelling, _) =>
        spelling == String.ofList ['-', c] || s.isPrefixOf spelling).map fun (_, f) =>
      .flag f true (some (String.ofList joined))
  | _ => []

/-- What an argument is. -/
def token (flags : Spellings) (s : String) : Token :=
  if !s.startsWith "-" || s == "-" then .word s
  else
    match flags.lookup s with
    | some f => .flag f (isShort s) none
    | none =>
      let (name, joined) := cutAtEquals s
      match joined, flags.lookup name with
      | some value, some f => .flag f (isShort name) (some value)
      | _, _ =>
        match candidates flags s with
        | [t] => t
        | _ :: _ :: _ => .ambiguous
        | [] => if isNegativeNumber s || s.contains ' ' then .word s else .unknown

/-- What the arguments are; after two hyphens they are all words. -/
def tokens (flags : Spellings) : List String → List Token
  | [] => []
  | "--" :: rest => .separator :: rest.map .word
  | s :: rest => token flags s :: tokens flags rest

/-- What the flags of a command and its words have told so far. -/
structure Told where
  /-- The first word. -/
  source : Option String := none
  /-- The syntax. -/
  inputSyntax : Option Syntax := none
  /-- The destination. -/
  destination : Destination := .output
  /-- The style. -/
  style : Style := .expanded
  /-- Whether to be quiet. -/
  quiet : Bool := false
  /-- Whether something is left over. -/
  surplus : Bool := false
  deriving DecidableEq, Repr

/-- The destination that a value stands for. -/
def destinationOf (value : String) : Destination :=
  if value = "--" then .missing else if value = "-" then .output else .file value

/-- The style that a value stands for; no value is the usual one. -/
def styleOf? (value : String) : Option Style :=
  if value = "--" then some .expanded else Style.ofName? value

/-- The syntax that a value stands for; with no value it is not told. -/
def syntaxOf? (value : String) : Option (Option Syntax) :=
  if value = "--" then some none else (Syntax.ofName? value).map some

/-- What is told by a flag with its value. -/
def withValue (told : Told) (value : String) : Flag → Except Stop Told
  | .output => .ok { told with destination := destinationOf value }
  | .style =>
    match styleOf? value with
    | some style => .ok { told with style }
    | none => .error .misuse
  | .inputSyntax =>
    match syntaxOf? value with
    | some inputSyntax => .ok { told with inputSyntax }
    | none => .error .misuse
  | _ => .error .misuse

/-- What is told by a flag without value. -/
def withoutValue (told : Told) : Flag → Except Stop Told
  | .help => .error .help
  | .version => .error .version
  | .quiet => .ok { told with quiet := true }
  | _ => .ok told

/-- The flags that a group of short ones is: those without value, and the last one
with the text that is joined to it, if it takes a value; `none` if a letter is no
flag. -/
def group (flags : Spellings) (f : Flag) :
    List Char → Option (List Flag × Option (Flag × Option String))
  | [] => if f.takesValue then some ([], some (f, none)) else some ([f], none)
  | c :: rest =>
    if f.takesValue then some ([], some (f, some (String.ofList (c :: rest))))
    else
      match flags.lookup (String.ofList ['-', c]) with
      | none => none
      | some g => (group flags g rest).map fun (fs, last) => (f :: fs, last)

/-- The parts of a flag: those without value, and one that takes a value. -/
def parts (flags : Spellings) (f : Flag) (short : Bool) (joined : Option String) :
    Option (List Flag × Option (Flag × Option String)) :=
  match joined with
  | none => group flags f []
  | some value =>
    if f.takesValue then some ([], some (f, some value))
    else if short && !value.isEmpty then group flags f value.toList
    else none

/-- Reads a word: the first one is the source. -/
def withWord (told : Told) (s : String) : Told :=
  match told.source with
  | none => { told with source := some s }
  | some _ => { told with surplus := true }

/-- Reads what the arguments of a command tell.  The separator belongs to the source
if it is directly before or after it, and is left over otherwise. -/
def tell (flags : Spellings) (told : Told) : List Token → Except Stop Told
  | [] => .ok told
  | .word s :: .separator :: rest => tell flags (withWord told s) rest
  | .word s :: rest => tell flags (withWord told s) rest
  | .separator :: .word s :: rest => tell flags (withWord told s) rest
  | .separator :: rest => tell flags { told with surplus := true } rest
  | .unknown :: rest => tell flags { told with surplus := true } rest
  | .ambiguous :: _ => .error .misuse
  | .flag f short joined :: rest =>
    match parts flags f short joined with
    | none => .error .misuse
    | some (plain, none) => do
      let told ← plain.foldlM withoutValue told
      tell flags told rest
    | some (plain, some (g, some value)) => do
      let told ← plain.foldlM withoutValue told
      let told ← withValue told value g
      tell flags told rest
    | some (plain, some (g, none)) =>
      match rest with
      | .word value :: rest => do
        let told ← plain.foldlM withoutValue told
        let told ← withValue told value g
        tell flags told rest
      | _ => .error .misuse

/-- The command that is told, if it has a source and nothing is left over. -/
def ofTold (isTree : Bool) (verbosity : Nat) (told : Told) : Except Stop Command :=
  match told.source with
  | none => .error .misuse
  | some source =>
    if told.surplus then .error .misuse
    else
      let task := if isTree then .tree else .compile told.style told.quiet told.destination
      .ok { task, source, inputSyntax := told.inputSyntax, verbosity }

/-- Reads the arguments after the name of a command. -/
def parseRest (isTree surplus : Bool) (verbosity : Nat) (args : List String) :
    Except Stop Command := do
  let flags := if isTree then treeFlags else compileFlags
  let found := tokens flags args
  if found.contains .ambiguous then .error .misuse
  else
    let told ← tell flags { surplus } found
    ofTold isTree verbosity told

/-- Reads the arguments up to the command. -/
def parseMain (surplus : Bool) (verbosity : Nat) : List String → Except Stop Command
  | [] => .error .misuse
  | s :: rest =>
    match token mainFlags s with
    | .word "compile" => parseRest false surplus verbosity rest
    | .word "tree" => parseRest true surplus verbosity rest
    | .word _ | .separator | .ambiguous => .error .misuse
    | .unknown => parseMain true verbosity rest
    | .flag f short joined =>
      match parts mainFlags f short joined with
      | some (plain, none) =>
        match plain.find? (· != .verbose) with
        | some .help => .error .help
        | some .version => .error .version
        | _ => parseMain surplus (verbosity + plain.length) rest
      | _ => .error .misuse

/-- **The command that the arguments of the program ask for.** -/
def parse (args : List String) : Except Stop Command :=
  if (tokens mainFlags args).contains .ambiguous then .error .misuse
  else parseMain false 0 args

end Command
end Stylesheet
