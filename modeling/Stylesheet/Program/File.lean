/-
# Files

What the program needs of a file system: to read a file, to write one with the
directories it lies in, to read the standard input, and to know the home directory.
`FileSystem m` are these operations in a monad `m`; `Disk` is a file system in memory
that knows the same errors.

A path that starts with `~` starts in the home directory; with `~` and a name it
would start in that of somebody else, which is not known.

Texts are read with every line end, `\r\n` and `\r` too, as a line feed.
-/

import Stylesheet.Log

namespace Stylesheet

/-- What is wrong with a file. -/
inductive FileFault where
  | missing
  | exists
  | notDirectory
  | isDirectory
  | nameTooLong
  /-- A fault that is given in words. -/
  | other (words : String)
  deriving DecidableEq, Repr

/-- The wording of a fault, with its number. -/
def FileFault.text : FileFault → String
  | missing => "[Errno 2] No such file or directory"
  | .exists => "[Errno 17] File exists"
  | notDirectory => "[Errno 20] Not a directory"
  | isDirectory => "[Errno 21] Is a directory"
  | nameTooLong => "[Errno 36] File name too long"
  | other words => words

/-- A fault and the path that has it. -/
structure FileError where
  /-- The fault. -/
  fault : FileFault
  /-- The path. -/
  path : String
  deriving DecidableEq, Repr

/-- The wording of an error. -/
def FileError.text (e : FileError) : String :=
  e.fault.text ++ ": " ++ quotedText e.path

/-- The operations of a file system. -/
structure FileSystem (m : Type → Type) where
  /-- Reads a file. -/
  read : String → m (Except FileError String)
  /-- Writes a file, making the directories that it lies in. -/
  write : String → String → m (Except FileError Unit)
  /-- Reads the standard input. -/
  standardInput : m String
  /-- The path of the home directory. -/
  home : String

/-- A text with every line end as a line feed. -/
def unifyLineEndChars : List Char → List Char
  | [] => []
  | '\r' :: '\n' :: rest => '\n' :: unifyLineEndChars rest
  | c :: rest => (if c = '\r' then '\n' else c) :: unifyLineEndChars rest

/-- A text with every line end as a line feed. -/
def unifyLineEnds (s : String) : String :=
  String.ofList (unifyLineEndChars s.toList)

namespace FilePath

/-- The components of a path; empty ones and single dots are left out. -/
def components (path : String) : List String :=
  (path.splitOn "/").filter fun c => c ≠ "" && c ≠ "."

/-- The slashes that a path starts with: two stay two, any other number counts as one. -/
def root (path : String) : String :=
  match path.toList with
  | '/' :: '/' :: '/' :: _ => "/"
  | '/' :: '/' :: _ => "//"
  | '/' :: _ => "/"
  | _ => ""

/-- A path in its plain spelling. -/
def plain (path : String) : String :=
  let text := root path ++ String.intercalate "/" (components path)
  if text.isEmpty then "." else text

/-- The last component of a path. -/
def fileName (path : String) : String :=
  (components path).getLastD ""

/-- Why a text cannot be used as a path. -/
inductive Fault where
  /-- It holds the character that ends a path. -/
  | endMark
  /-- It starts in the home directory of somebody who is not known. -/
  | unknownHome
  deriving DecidableEq, Repr

/-- A path with the home directory filled in. -/
def expand (home path : String) : Except Fault String :=
  if path.startsWith "/" then .ok path
  else
    match components path with
    | "~" :: parts => .ok (String.intercalate "/" (home :: parts))
    | part :: _ => if part.startsWith "~" then .error .unknownHome else .ok path
    | [] => .ok path

/-- A text as a path that can be used, with the home directory filled in. -/
def ofText (home text : String) : Except Fault String := do
  let path ← expand home text
  if path.contains '\x00' then throw .endMark
  else return path

end FilePath

/-- A file system in memory: the files by the components of their paths.  They lie in
a directory of their own, among others that are the same everywhere. -/
structure Disk where
  /-- The files. -/
  files : List (List String × String) := []
  /-- The standard input. -/
  input : String := ""

namespace Disk

/-- The content of a file. -/
def file? (d : Disk) (parts : List String) : Option String :=
  d.files.lookup parts

/-- The path of the home directory. -/
def home : String := "/root"

/-- The components, from the root on, of the path of the directory of a disk, which has
an empty name. -/
def place : List String := ["tmp", ""]

/-- The directories outside a disk, by their components from the root on: the root, and
those in it that are everywhere. -/
def outerDirectories : List (List String) :=
  [] :: ["bin", "dev", "etc", "home", "lib", "mnt", "opt", "proc", "root", "run", "sbin",
    "srv", "sys", "tmp", "usr", "var"].map ([·])

/-- The file outside a disk that is everywhere, and always empty. -/
def emptyFile : List String := ["dev", "null"]

/-- The components inside a disk of those from the root on, if they lead there. -/
def inside? (full : List String) : Option (List String) :=
  if place.isPrefixOf full then some (full.drop place.length) else none

/-- Components from the root on as a path; inside a disk it starts in its directory. -/
def pathText (full : List String) : String :=
  match inside? full with
  | some parts => String.intercalate "/" parts
  | none => "/" ++ String.intercalate "/" full

/-- The content of the file with these components from the root on. -/
def content? (d : Disk) (full : List String) : Option String :=
  match inside? full with
  | some parts => d.file? parts
  | none => if full = emptyFile then some "" else none

/-- Whether these components from the root on lead to a directory: inside a disk to that
of the disk or one that a file lies in. -/
def isDirectory (d : Disk) (full : List String) : Bool :=
  match inside? full with
  | some parts => parts.isEmpty || d.files.any fun (p, _) => parts.isPrefixOf p && p ≠ parts
  | none => outerDirectories.contains full

/-- Whether a component is longer than a name may be, which is 255 bytes. -/
def isTooLong (part : String) : Bool :=
  part.utf8ByteSize > 255

/-- Whether a path is longer than one may be, which is 4095 bytes. -/
def isPathTooLong (path : String) : Bool :=
  path.utf8ByteSize > 4095

/-- Where a path starts, from the root on. -/
def start (path : String) : List String :=
  if path.startsWith "/" then [] else place

/-- The components from the root on that a path leads to, looked up one after the other,
or what is wrong with it; `above` are those so far, last first.  What is above the root
is the root. -/
def lookUp (d : Disk) (above : List String) : List String → Except FileFault (List String)
  | [] => .ok above.reverse
  | part :: parts =>
    if !d.isDirectory above.reverse then
      .error (if (d.content? above.reverse).isSome then .notDirectory else .missing)
    else if part = ".." then lookUp d above.tail parts
    else if isTooLong part then .error .nameTooLong
    else lookUp d (part :: above) parts

/-- The components from the root on that a path stands for, whatever is there: every
`..` goes together with the component before it. -/
def resolve (path : String) : List String :=
  let step (above : List String) (part : String) : List String :=
    if part = ".." then above.tail else part :: above
  ((FilePath.components path).foldl step (start path).reverse).reverse

/-- The content of a file, or what is wrong with it. -/
def read (d : Disk) (path : String) : Except FileError String :=
  let refuse (fault : FileFault) : Except FileError String :=
    .error { fault, path := FilePath.plain path }
  if isPathTooLong (FilePath.plain path) then refuse .nameTooLong
  else
    match d.lookUp (start path).reverse (FilePath.components path) with
    | .error fault => refuse fault
    | .ok full =>
      match d.content? full with
      | some content => .ok (unifyLineEnds content)
      | none => refuse (if d.isDirectory full then .isDirectory else .missing)

/-- The fault of making a directory with those that it lies in, and the path that has
it.  What is there already is left alone, if it is a directory. -/
def makeFault? (d : Disk) (full : List String) : Option FileError :=
  if isPathTooLong (pathText full) then some { fault := .nameTooLong, path := pathText full }
  else if d.isDirectory full then none
  else if (d.content? full).isSome then some { fault := .exists, path := pathText full }
  else if (List.range full.length).any fun n => (d.content? (full.take n)).isSome then
    some { fault := .notDirectory, path := pathText full }
  else
    (full.findIdx? isTooLong).map fun n =>
      -- directories are made from the first missing one on, up to the one with the long name
      { fault := .nameTooLong
        path := pathText (if d.isDirectory (full.take n) then full else full.take (n + 1)) }

/-- The disk with a file written, or what is wrong with its path.  What is written
outside the disk leaves no trace. -/
def write (d : Disk) (path content : String) : Except FileError Disk :=
  let full := resolve path
  match d.makeFault? full.dropLast with
  | some e => .error e
  | none =>
    if isPathTooLong (pathText full) || full.any isTooLong then
      .error { fault := .nameTooLong, path := pathText full }
    else if d.isDirectory full then .error { fault := .isDirectory, path := pathText full }
    else
      match inside? full with
      | none => .ok d
      | some parts =>
        let others := d.files.filter fun (p, _) => p ≠ parts
        .ok { d with files := others ++ [(parts, content)] }

/-- A disk as a file system. -/
def fileSystem : FileSystem (StateM Disk) where
  read path := fun d => (d.read path, d)
  write path content := fun d =>
    match d.write path content with
    | .ok d => (.ok (), d)
    | .error e => (.error e, d)
  standardInput := fun d => (d.input, d)
  home := home

end Disk
end Stylesheet
