/-
# Evaluating statements

A node becomes the list of nodes that it stands for: control directives and
inclusions are replaced by what they produce, definitions and assignments by
nothing, and everything else by itself with its texts resolved.  A body is
always evaluated in a fresh block, so what it defines is gone after it.

A buffer stays in the tree and is captured under its name at the same time; a
body of nothing but comments only declares the name.  A flush captures what has
been collected under its name so far, which is no error if there is nothing.

A failure that does not know its place gets the place of the innermost node that
was being evaluated.
-/

import Stylesheet.Evaluation.Expression
import Stylesheet.Selector

namespace Stylesheet
namespace Evaluation

/-- The nodes that some nodes become in a scope. -/
def visitAll (r : Recursion) (scope : ScopeId) (nodes : List Node) : Eval (List Node) := do
  let results ← nodes.mapM (r.visit scope)
  return results.flatten

/-- The nodes that a body becomes, in a fresh block. -/
def visitBody (r : Recursion) (scope : ScopeId) (body : List Node) : Eval (List Node) := do
  let block ← Eval.newBlock scope
  visitAll r block body

/-- An expression that a node has to have. -/
def required (e : Option Expr) : Eval Expr :=
  match e with
  | some e => return e
  | none => Eval.fail .missingExpression

/-- The value of an expression that a node has to have. -/
def evalRequired (r : Recursion) (scope : ScopeId) (e : Option Expr) : Eval Value := do
  let e ← required e
  r.eval scope e

/-- A template with its holes filled and its blanks collapsed. -/
def fillCollapsed (r : Recursion) (scope : ScopeId) (t : Template) : Eval String := do
  let text ← fill r scope t
  return Text.collapse text

/-- The integer that a value is, with its unit, if it is one. -/
def wholeOf (v : Value) : Eval (Option (Int × String)) :=
  match v with
  | .number x u => do
    let i ← Eval.liftRange x.asWhole
    return i.map fun i => (i, u)
  | _ => return none

/-- The integer that a bound of a loop is, with its unit. -/
def bound (v : Value) (label : String) : Eval (Int × String) := do
  match ← wholeOf v with
  | some found => return found
  | none => do
    let text ← Eval.liftRange v.css
    Eval.failWith (.notInteger text label)

/-- The nodes that one round of a loop becomes, with its variable assigned in the
block around all rounds. -/
def round (r : Recursion) (loop : ScopeId) (var : String) (body : List Node) (value : Value) :
    Eval (List Node) := do
  Eval.modifyScopes fun s => s.setLocalVar loop var value
  visitBody r loop body

/-- The nodes that the rounds of a loop over the items of a list become. -/
def eachRounds (r : Recursion) (scope : ScopeId) (var : String) (values : List Value)
    (body : List Node) : Eval (List Node) := do
  let loop ← Eval.newBlock scope
  let results ← values.mapM (round r loop var body)
  return results.flatten

/-- The integers of a loop from `start` towards `stop`, which is left out if
`exclusive`: how many there are, and the step from one to the next. -/
def range (start stop : Int) (exclusive : Bool) : Nat × Int :=
  ((stop - start).natAbs + if exclusive then 0 else 1, if start ≤ stop then 1 else -1)

/-- The nodes that so many rounds of a loop over integers become, from `i` on;
`found` are those of the rounds before, last round first. -/
def forRounds (r : Recursion) (loop : ScopeId) (var unit : String) (body : List Node)
    (step : Int) : Nat → (i : Int) → List (List Node) → Eval (List Node)
  | 0, _, found => return found.reverse.flatten
  | n + 1, i, found => do
    let nodes ← round r loop var body (.number (.int i) unit)
    forRounds r loop var unit body step n (i + step) (nodes :: found)

/-- The nodes that the rounds of a loop become, while its test holds; `found` are
those of the rounds before, last round first. -/
def whileRounds (r : Recursion) (scope : ScopeId) (test : Option Expr) (body : List Node) :
    Nat → List (List Node) → Eval (List Node)
  | 0, _ => throw .exhausted
  | n + 1, found => do
    let v ← evalRequired r scope test
    if v.truthy then do
      let nodes ← visitBody r scope body
      whileRounds r scope test body n (nodes :: found)
    else return found.reverse.flatten

/-- The normalized name of a buffer. -/
def bufferText (r : Recursion) (scope : ScopeId) (name : BufferName) : Eval String := do
  let text ← fill r scope name.written
  return Name.normalize (Text.trim text)

/-- The normalized name of a buffer, which must not be empty. -/
def resolveName (r : Recursion) (scope : ScopeId) (name : BufferName) :
    Eval (String × BufferName) := do
  let text ← bufferText r scope name
  if text.isEmpty then Eval.failWith .emptyBufferName
  else return (text, { name with resolved := some text })

/-- The scope in which a name that a scope buffers under is kept. -/
def bufferScope (s : Scopes) (scope : ScopeId) (name : String) : ScopeId :=
  match s.buffer? scope name with
  | some _ => scope
  | none => s.owner scope

/-- Notes that an entry is made, if it is. -/
def noteNewEntry (scope : ScopeId) (name : String) : Eval Unit := do
  match (← Eval.scopes).buffer? scope name with
  | some _ => return ()
  | none => Eval.note .debug .scopes ("creating buffer " ++ quotedText name)

/-- A buffer without content, which leaves nothing but its name. -/
def declareOnly (keeper : ScopeId) (text : String) : Eval (List Node) := do
  noteNewEntry keeper text
  Eval.modifyScopes fun s => s.declareBuffer keeper text
  Eval.note .debug .evaluation
    ("buffer " ++ quotedText text ++ ": empty body, nothing appended")
  return []

/-- A buffer with content: a group, which is put into the entry of its name. -/
def capture (keeper : ScopeId) (text : String) (info : Info) (name : BufferName)
    (children : List Node) : Eval (List Node) := do
  let (group, node) ← Eval.newGroup fun i =>
    .plain { info with group := some i } (.buffer name) children
  noteNewEntry keeper text
  Eval.modifyScopes fun s => s.appendBuffer keeper text group
  Eval.record ((← Eval.scopes).bufferHolder? keeper text) (.group group name.resolved)
  Eval.note .debug .evaluation
    ("buffer " ++ quotedText text ++ ": appended " ++ toString children.length ++ " node(s)")
  return [node]

/-- A buffer with its body evaluated. -/
def visitBuffer (r : Recursion) (scope : ScopeId) (info : Info) (name : BufferName)
    (body : List Node) : Eval (List Node) := do
  let (text, name) ← resolveName r scope name
  let children ← visitBody r scope body
  let keeper := bufferScope (← Eval.scopes) scope text
  if children.all (·.kind == .comment) then declareOnly keeper text
  else capture keeper text info name children

/-- Notes that nothing is to be found under a name, if there is nothing. -/
def noteUnknown (scopes : Scopes) (scope : ScopeId) (name : String) : Eval Unit :=
  match scopes.buffer? scope name with
  | some _ => return ()
  | none =>
    let names := String.intercalate ", " (scopes.bufferNames scope)
    Eval.note .debug .evaluation
      ("flush " ++ quotedText name ++ ": nothing buffered under this name (visible: " ++
        (if names.isEmpty then "none" else names) ++ ")")

/-- A flush with what has been collected under its name. -/
def visitFlush (r : Recursion) (scope : ScopeId) (info : Info) (name : BufferName)
    (children : List Node) : Eval (List Node) := do
  let (text, name) ← resolveName r scope name
  let scopes ← Eval.scopes
  noteUnknown scopes scope text
  let captured := (scopes.buffer? scope text).getD []
  Eval.record (scopes.bufferHolder? scope text) (.flush name.resolved captured)
  return [.plain info (.flush name captured) children]

/-- The nodes that the body of a mixin becomes in the scope of an invocation, with the
selectors of the place of the inclusion. -/
def includeMixin (r : Recursion) (scope : ScopeId) (d : Definition) (args : List Value)
    (keywords : List (String × Value)) : Eval (List Node) := do
  let inner ← bind r d args keywords
  let selector := (← Eval.scopes).selector? scope
  Eval.modifyScopes fun s => s.setSelector inner selector
  visitAll r inner d.body

/-- The nodes that an inclusion becomes. -/
def visitInclusion (r : Recursion) (scope : ScopeId) (name : String) (args : List Expr)
    (keywords : List (String × Expr)) : Eval (List Node) := do
  match (← Eval.scopes).mixin? scope name with
  | none => Eval.failWith (.undefinedMixin name)
  | some d => do
    let args ← args.mapM (r.eval scope)
    let keywords ← evalKeywords r scope keywords
    includeMixin r scope d args keywords

/-- The value of an expression that a node may have. -/
def evalOptional (r : Recursion) (scope : ScopeId) (e : Option Expr) : Eval Value :=
  match e with
  | some e => r.eval scope e
  | none => return .null

/-- The nodes that what a directive holds becomes; without a block that is as it is. -/
def visitBlock (r : Recursion) (scope : ScopeId) (hasBlock : Bool) (children : List Node) :
    Eval (List Node) :=
  if hasBlock then visitBody r scope children else return children

/-- The nodes that a node with this head becomes. -/
def visitPlain (r : Recursion) (scope : ScopeId) (info : Info) (head : Head)
    (children : List Node) : Eval (List Node) :=
  match head with
  | .root => do
    let children ← visitBody r scope children
    return [.plain info .root children]
  | .rule selector _ => do
    let text ← fill r scope selector
    let parents := (← Eval.scopes).selector? scope
    let selectors ← Eval.lift ((Selector.resolve text parents).mapError .ofCause)
    let inner ← Eval.newBlock scope
    Eval.modifyScopes fun s => s.setSelector inner (some selectors)
    let children ← visitBody r inner children
    return [.plain info (.rule selector (some selectors)) children]
  | .declaration name value _ _ => do
    let resolvedName ← fill r scope name
    let v ← evalOptional r scope value
    let text ← Eval.liftRange v.css
    if text.isEmpty then return []
    else
      return [.plain info
        (.declaration name value (some (Text.trim resolvedName)) (some text)) children]
  | .directive prelude _ hasBlock => do
    let text ← fillCollapsed r scope prelude
    let children ← visitBlock r scope hasBlock children
    return [.plain info (.directive prelude (some text) hasBlock) children]
  | .media query _ => do
    let text ← fillCollapsed r scope query
    let children ← visitBody r scope children
    return [.plain info (.media query (some text)) children]
  | .supports condition _ => do
    let text ← fillCollapsed r scope condition
    let children ← visitBody r scope children
    return [.plain info (.supports condition (some text)) children]
  | .importSheet uri => return [.plain info (.importSheet uri) children]
  | .extend selector _ => do
    let text ← fillCollapsed r scope selector
    return [.plain info (.extend selector (some text)) children]
  | .comment text silent =>
    return if silent then [] else [.plain info (.comment text silent) children]
  | .assignment name value guarded => do
    let kept :=
      match (← Eval.scopes).var? scope name with
      | some .null | none => false
      | some _ => guarded
    if kept then return []
    else do
      let v ← evalRequired r scope value
      Eval.modifyScopes fun s => s.setVar scope name v
      return []
  | .forLoop var start stop exclusive => do
    let v ← evalRequired r scope start
    let (first, unit) ← bound v "from"
    let w ← evalRequired r scope stop
    let (last, _) ← bound w "to"
    let (count, step) := range first last exclusive
    let loop ← Eval.newBlock scope
    forRounds r loop var unit children step count first []
  | .eachLoop var list => do
    let v ← evalRequired r scope list
    eachRounds r scope var v.items children
  | .whileLoop test => whileRounds r scope test children r.rounds []
  | .mixin name params => do
    Eval.modifyScopes fun s =>
      s.setMixin scope name { what := .mixin, name, params, scope, body := children }
    return []
  | .inclusion name args keywords => visitInclusion r scope name args keywords
  | .function name params => do
    Eval.modifyScopes fun s =>
      s.setFunction scope name { what := .function, name, params, scope, body := children }
    return []
  | .result value => do
    let v ← evalRequired r scope value
    throw (.result v)
  | .debug value => do
    let v ← evalRequired r scope value
    let text ← Eval.liftRange v.plain
    Eval.note .warning .evaluation
      (info.fileText ++ ":" ++ toString info.line ++ " DEBUG: " ++ text)
    return []
  | .warn value => do
    let v ← evalRequired r scope value
    if ((← Eval.scopes).get scope).options.quiet then return []
    else do
      let text ← Eval.liftRange v.plain
      Eval.note .warning .evaluation
        ("WARNING: " ++ text ++ "\n        on line " ++ toString info.line ++ " of " ++
          info.fileText)
      return []
  | .buffer name => visitBuffer r scope info name children
  | .flush name _ => visitFlush r scope info name children

/-- Whether the test of a clause holds; the last `@else` has none. -/
def testHolds (r : Recursion) (scope : ScopeId) (test : Option Expr) : Eval Bool :=
  match test with
  | none => return true
  | some e => do
    let v ← r.eval scope e
    return v.truthy

/-- The nodes that an `@if` becomes: those of the first clause whose test holds. -/
def visitCond (r : Recursion) (scope : ScopeId) (test : Option Expr) (children : List Node)
    (otherwise : Option Node) : Eval (List Node) := do
  let holds ← testHolds r scope test
  if holds then visitBody r scope children
  else
    match otherwise with
    | some clause => r.visit scope clause
    | none => return []

/-- The nodes that a node becomes in a scope.  They are new ones: what refers to the
node as a group does not refer to them. -/
def visitNode (r : Recursion) (scope : ScopeId) (n : Node) : Eval (List Node) :=
  Eval.locate n.info.span <|
    match n with
    | .plain info head children => visitPlain r scope info.apart head children
    | .cond _ test children otherwise => visitCond r scope test children otherwise

end Evaluation
end Stylesheet
