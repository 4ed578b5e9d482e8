/-
# Kinds of nodes

The closed set of the kinds of nodes in a style sheet tree, with the three
properties that the passes ask for: which kinds are control directives and so
invisible to the nesting rules (`Kind.isControl`), which kinds count as the
directive around a node (`Kind.isDirective`), and which are lifted out of the
rule that directly encloses them (`Kind.bubbles`).
-/

namespace Stylesheet

/-- What a node of the tree is. -/
inductive Kind where
  | root
  | rule
  | declaration
  | directive
  | media
  | supports
  | importSheet
  | extend
  | comment
  | assignment
  | cond
  | forLoop
  | eachLoop
  | whileLoop
  | mixin
  | inclusion
  | function
  | result
  | debug
  | warn
  | buffer
  | flush
  deriving DecidableEq, Repr

namespace Kind

/-- The word for a kind in messages and dumps. -/
def name : Kind → String
  | root => "root"
  | rule => "rule"
  | declaration => "prop"
  | directive => "directive"
  | media => "media"
  | supports => "supports"
  | importSheet => "import"
  | extend => "extend"
  | comment => "comment"
  | assignment => "variable"
  | cond => "if"
  | forLoop => "for"
  | eachLoop => "each"
  | whileLoop => "while"
  | mixin => "mixindef"
  | inclusion => "mixin"
  | function => "function"
  | result => "return"
  | debug => "debug"
  | warn => "warn"
  | buffer => "buffer"
  | flush => "flush"

/-- Every kind, in the order of the declaration. -/
def all : List Kind :=
  [root, rule, declaration, directive, media, supports, importSheet, extend, comment,
    assignment, cond, forLoop, eachLoop, whileLoop, mixin, inclusion, function, result,
    debug, warn, buffer, flush]

/-- The kind that a word stands for. -/
def ofName? (name : String) : Option Kind :=
  all.find? (·.name == name)

/-- Control directives: `@if`, `@for`, `@each` and `@while`. -/
def isControl : Kind → Bool
  | cond | forLoop | eachLoop | whileLoop => true
  | _ => false

/-- The kinds that count as the directive around a node. -/
def isDirective : Kind → Bool
  | directive | media | supports | buffer => true
  | _ => false

/-- The kinds whose content is lifted out of a directly enclosing rule. -/
def bubbles : Kind → Bool
  | buffer | media | supports => true
  | _ => false

/-- The list of the kinds has them all. -/
theorem mem_all (k : Kind) : k ∈ all := by
  cases k <;> decide

/-- **A kind is known by its word.** -/
theorem ofName?_name (k : Kind) : ofName? k.name = some k := by
  cases k <;> decide

end Kind
end Stylesheet
