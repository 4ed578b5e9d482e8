/-
# Writing CSS

An `Emitter` writes a CSS text step by step and knows how deep it is in blocks.
Expanded output has a line for each text, declaration and brace.  Compressed
output has no optional space; there a semicolon separates declarations instead
of ending them, so the emitter remembers whether one is still open.

`Css.render` writes the items of a document, with one line end after the last.
-/

import Stylesheet.Css.Item

namespace Stylesheet
namespace Css

/-- A text that is being written. -/
structure Emitter where
  /-- One level of indentation. -/
  indent : String := "  "
  /-- Whether optional space is left out. -/
  compressed : Bool := false
  /-- What has been written. -/
  text : String := ""
  /-- How many blocks are open. -/
  depth : Nat := 0
  /-- Whether a declaration has been written and not yet delimited. -/
  pending : Bool := false
  deriving Repr

namespace Emitter

/-- Adds to what has been written. -/
def write (e : Emitter) (s : String) : Emitter :=
  { e with text := e.text ++ s }

/-- Delimits a declaration that is still open. -/
def settle (e : Emitter) : Emitter :=
  if e.pending then { e.write ";" with pending := false } else e

/-- The indentation of the current line. -/
def margin (e : Emitter) : String :=
  String.join (List.replicate e.depth e.indent)

/-- Writes a line. -/
def line (e : Emitter) (s : String) : Emitter :=
  if e.compressed then e.settle.write s else e.write (e.margin ++ s ++ "\n")

/-- Writes a blank line, if there is room for it. -/
def blank (e : Emitter) : Emitter :=
  if e.compressed then e else e.write "\n"

/-- Writes a statement that a semicolon delimits. -/
def declaration (e : Emitter) (s : String) : Emitter :=
  if e.compressed then
    { (if e.pending then e.write ";" else e).write s with pending := true }
  else e.line (s ++ ";")

/-- Opens a block. -/
def openBlock (e : Emitter) (header : String) : Emitter :=
  let e := if e.compressed then e.settle.write (header ++ "\x7b") else e.line (header ++ " \x7b")
  { e with depth := e.depth + 1 }

/-- Closes the innermost block; its last declaration needs no semicolon. -/
def closeBlock (e : Emitter) : Emitter :=
  { e with depth := e.depth - 1, pending := false }.line "\x7d"

mutual

/-- Writes an item. -/
def item (e : Emitter) : Item → Emitter
  | .text s => e.line s
  | .declaration s => e.declaration s
  | .block header inner => (items (e.openBlock header) inner).closeBlock
  | .blank => e.blank
  | .seam => e.settle

/-- Writes some items. -/
def items (e : Emitter) : List Item → Emitter
  | [] => e
  | i :: is => items (item e i) is

end

end Emitter

/-- A text with the line ends at its end replaced by one, unless it is empty. -/
def endLine (s : String) : String :=
  if s.isEmpty then ""
  else String.ofList ((s.toList.reverse.dropWhile (· == '\n')).reverse ++ ['\n'])

/-- The CSS text of the children of a document. -/
def renderChildren (o : Options) (children : List Node) : String :=
  let e : Emitter := { indent := o.indent, compressed := o.style == .compressed }
  endLine ((e.items (itemsOfDocument o.style children)).settle).text

/-- The CSS text of a document; a node of another kind has none. -/
def render? (o : Options) : Node → Option String
  | .plain _ .root children => some (renderChildren o children)
  | _ => none

end Css
end Stylesheet
