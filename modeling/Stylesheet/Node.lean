/-
# The style sheet tree

A node is its `Head`, which says what it is and holds what is special to its
kind, the common `Info`, and its children.  An `@if` is set apart, because it
alone holds a node that is not a child: the `@else` clause after it.

Texts are kept twice: as they are written, with holes, and *resolved* once they
have been evaluated.  `Node.describe` shows the resolved text where there is one,
and `Node.pretty` a whole subtree.

A node whose content a flush stands for is a *group*: evaluation makes one of every
buffer that it captures.  A group has a `GroupId`, by which flushes refer to it.  A
node in the tree and a reference to it are the same group exactly when the numbers
agree; `Node.copy` gives independent nodes, so it drops the numbers of groups and
keeps the references of flushes.
-/

import Stylesheet.Expr
import Stylesheet.Node.Kind

namespace Stylesheet

/-- The number under which a group is found. -/
abbrev GroupId := Nat

/-- What every node has. -/
structure Info where
  /-- Whether the node is the last one of a group at the root. -/
  groupEnd : Bool := false
  /-- The line that the node starts on; zero if unknown. -/
  line : Nat := 0
  /-- The file of the node, if known. -/
  file : Option String := none
  /-- The group that the node is, if flushes may refer to it. -/
  group : Option GroupId := none
  deriving BEq, Repr, Inhabited

namespace Info

/-- The place of a node. -/
def span (i : Info) : Span where
  file := match i.file with
    | some f => if f.isEmpty then "<string>" else f
    | none => "<string>"
  line := i.line

/-- The file of a node for a note. -/
def fileText (i : Info) : String :=
  i.span.file

/-- The common part of an independent node, which is no group. -/
def apart (i : Info) : Info :=
  { i with group := none }

end Info

/-- The name of a buffer as it is written and, once evaluated, its normalized text. -/
structure BufferName where
  /-- The name as it is written. -/
  written : Template := []
  /-- The evaluated and normalized name. -/
  resolved : Option String := none
  deriving BEq, Inhabited

/-- The first text, unless it is absent or empty. -/
def textOr (text : Option String) (other : String) : String :=
  match text with
  | some t => if t.isEmpty then other else t
  | none => other

/-- The text of a buffer name in dumps. -/
def BufferName.text (b : BufferName) : String :=
  textOr b.resolved b.written.sketch

/-- A parameter and its default. -/
abbrev Parameter := String × Option Expr

/-- A step on the way through a tree that concerns its buffers. -/
inductive BufferStep where
  /-- A buffer that is a group has come to its end. -/
  | group (number : GroupId) (name : Option String)
  /-- A flush refers to the groups it has captured. -/
  | flush (name : Option String) (captured : List GroupId)
  deriving DecidableEq, Repr

/-- What a node is. -/
inductive Head where
  /-- The document. -/
  | root
  /-- `selector { … }`; resolved, the selectors with their parents filled in. -/
  | rule (selector : Template) (resolved : Option (List String))
  /-- `name: value`. -/
  | declaration (name : Template) (value : Option Expr)
      (resolvedName resolvedValue : Option String)
  /-- An at-rule without a meaning of its own, with or without a block. -/
  | directive (prelude : Template) (resolved : Option String) (hasBlock : Bool)
  /-- `@media query { … }`. -/
  | media (query : Template) (resolved : Option String)
  /-- `@supports condition { … }`. -/
  | supports (condition : Template) (resolved : Option String)
  /-- A plain `@import`, kept as it is written. -/
  | importSheet (uri : String)
  /-- `@extend selector`. -/
  | extend (selector : Template) (resolved : Option String)
  /-- A comment; a silent one leaves no trace. -/
  | comment (text : String) (silent : Bool)
  /-- `$name: value`; a guarded one keeps a value that is there. -/
  | assignment (name : String) (value : Option Expr) (guarded : Bool)
  /-- `@for $var from start through stop { … }`, or `to` when the end is left out. -/
  | forLoop (var : String) (start stop : Option Expr) (exclusive : Bool)
  /-- `@each $var in list { … }`. -/
  | eachLoop (var : String) (list : Option Expr)
  /-- `@while test { … }`. -/
  | whileLoop (test : Option Expr)
  /-- `@mixin name(…) { … }`. -/
  | mixin (name : String) (params : List Parameter)
  /-- `@include name(…)`. -/
  | inclusion (name : String) (args : List Expr) (keywords : List (String × Expr))
  /-- `@function name(…) { … }`. -/
  | function (name : String) (params : List Parameter)
  /-- `@return value`. -/
  | result (value : Option Expr)
  /-- `@debug value`. -/
  | debug (value : Option Expr)
  /-- `@warn value`. -/
  | warn (value : Option Expr)
  /-- `@buffer name { … }`: collects its content under the name. -/
  | buffer (name : BufferName)
  /-- `@flush name`: stands for the content of the groups it has captured. -/
  | flush (name : BufferName) (captured : List GroupId)
  deriving BEq

namespace Head

instance : Inhabited Head := ⟨.root⟩

/-- The kind of a node with this head. -/
def kind : Head → Kind
  | root => .root
  | rule .. => .rule
  | declaration .. => .declaration
  | directive .. => .directive
  | media .. => .media
  | supports .. => .supports
  | importSheet _ => .importSheet
  | extend .. => .extend
  | comment .. => .comment
  | assignment .. => .assignment
  | forLoop .. => .forLoop
  | eachLoop .. => .eachLoop
  | whileLoop _ => .whileLoop
  | mixin .. => .mixin
  | inclusion .. => .inclusion
  | function .. => .function
  | result _ => .result
  | debug _ => .debug
  | warn _ => .warn
  | buffer .. => .buffer
  | flush .. => .flush

/-- One line about a node with this head. -/
def describe : Head → String
  | rule _ (some selectors) => "rule " ++ String.intercalate ", " selectors
  | rule selector none => "rule " ++ selector.sketch
  | declaration _ _ (some name) value => "prop " ++ name ++ ": " ++ value.getD "None"
  | declaration name _ none _ => "prop " ++ name.sketch
  | directive prelude resolved _ => textOr resolved prelude.sketch
  | media query resolved => "@media " ++ textOr resolved query.sketch
  | supports condition resolved => "@supports " ++ textOr resolved condition.sketch
  | importSheet uri => "@import " ++ uri
  | assignment name _ _ => "$" ++ name
  | forLoop var .. => "@for $" ++ var
  | eachLoop var _ => "@each $" ++ var
  | mixin name _ => "@mixin " ++ name
  | inclusion name .. => "@include " ++ name
  | function name _ => "@function " ++ name
  | buffer name => "@buffer " ++ name.text
  | flush name _ => "@flush " ++ name.text
  | head => head.kind.name

/-- A parameter with its default rebuilt. -/
def copyParameter (p : Parameter) : Parameter :=
  (p.1, p.2.map Expr.copy)

/-- The name of a buffer rebuilt. -/
def copyName (name : BufferName) : BufferName :=
  { name with written := Expr.copyFragments name.written }

/-- The head rebuilt from its parts, for an independent node. -/
def copy : Head → Head
  | root => root
  | rule selector resolved => rule (Expr.copyFragments selector) resolved
  | declaration name value resolvedName resolvedValue =>
    declaration (Expr.copyFragments name) (value.map Expr.copy) resolvedName resolvedValue
  | directive prelude resolved hasBlock =>
    directive (Expr.copyFragments prelude) resolved hasBlock
  | media query resolved => media (Expr.copyFragments query) resolved
  | supports condition resolved => supports (Expr.copyFragments condition) resolved
  | importSheet uri => importSheet uri
  | extend selector resolved => extend (Expr.copyFragments selector) resolved
  | comment text silent => comment text silent
  | assignment name value guarded => assignment name (value.map Expr.copy) guarded
  | forLoop var start stop exclusive =>
    forLoop var (start.map Expr.copy) (stop.map Expr.copy) exclusive
  | eachLoop var list => eachLoop var (list.map Expr.copy)
  | whileLoop test => whileLoop (test.map Expr.copy)
  | mixin name params => mixin name (params.map copyParameter)
  | inclusion name args keywords =>
    inclusion name (Expr.copyAll args) (Expr.copyKeywords keywords)
  | function name params => function name (params.map copyParameter)
  | result value => result (value.map Expr.copy)
  | debug value => debug (value.map Expr.copy)
  | warn value => warn (value.map Expr.copy)
  | buffer name => buffer (copyName name)
  | flush name captured => flush (copyName name) captured

end Head

/-- A node of the tree. -/
inductive Node where
  /-- A node that holds no nodes but its children. -/
  | plain (info : Info) (head : Head) (children : List Node)
  /-- `@if test { … }`, or the last `@else` when there is no test, with the clause
  after it. -/
  | cond (info : Info) (test : Option Expr) (children : List Node) (otherwise : Option Node)
  deriving BEq

namespace Node

instance : Inhabited Node := ⟨.plain {} .root []⟩

/-- The common part of a node. -/
def info : Node → Info
  | plain i _ _ => i
  | cond i _ _ _ => i

/-- The children of a node, without the `@else` clause. -/
def children : Node → List Node
  | plain _ _ cs => cs
  | cond _ _ cs _ => cs

/-- The kind of a node. -/
def kind : Node → Kind
  | plain _ h _ => h.kind
  | cond .. => .cond

/-- The node with another common part. -/
def withInfo (i : Info) : Node → Node
  | plain _ h cs => plain i h cs
  | cond _ t cs o => cond i t cs o

/-- The node with other children. -/
def withChildren (cs : List Node) : Node → Node
  | plain i h _ => plain i h cs
  | cond i t _ o => cond i t cs o

/-- The node with its group end set or cleared. -/
def markGroupEnd (b : Bool) (n : Node) : Node :=
  n.withInfo { n.info with groupEnd := b }

/-- One line about a node. -/
def describe : Node → String
  | plain _ h _ => h.describe
  | cond .. => Kind.cond.name

/-- A line two blanks in for each level. -/
def indented (depth : Nat) (line : String) : String :=
  String.join (List.replicate depth "  ") ++ line

mutual

/-- The lines that show a subtree, `depth` levels in. -/
def prettyLines (depth : Nat) : Node → List String
  | plain _ h cs => indented depth h.describe :: prettyAll (depth + 1) cs
  | cond _ _ cs _ => indented depth Kind.cond.name :: prettyAll (depth + 1) cs

/-- The lines that show some subtrees. -/
def prettyAll (depth : Nat) : List Node → List String
  | [] => []
  | n :: ns => prettyLines depth n ++ prettyAll depth ns

end

/-- A subtree as text, one node a line. -/
def pretty (n : Node) : String :=
  String.intercalate "\n" (prettyLines 0 n)

mutual

/-- An independent clone of a subtree. -/
def copy : Node → Node
  | plain i h cs => plain i.apart h.copy (copyAll cs)
  | cond i t cs o => cond i.apart (t.map Expr.copy) (copyAll cs) (copyOption o)

/-- Clones of some subtrees. -/
def copyAll : List Node → List Node
  | [] => []
  | n :: ns => n.copy :: copyAll ns

/-- A clone of a clause that may be absent. -/
def copyOption : Option Node → Option Node
  | none => none
  | some n => some n.copy

end

/-- An independent clone of a node without its children. -/
def shell (n : Node) : Node :=
  (n.withChildren []).copy

/-- Appends a clause to the end of an `@else` chain. -/
def addElse : Node → Node → Node
  | cond i t cs none, clause => cond i t cs (some clause)
  | cond i t cs (some o), clause => cond i t cs (some (o.addElse clause))
  | n, _ => n

end Node
end Stylesheet
