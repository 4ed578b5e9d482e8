/-
# Layout

The layout pass turns an evaluated tree into the flat shape of CSS.

* A rule keeps its declarations and comments and goes if it has none; whatever
  else is in it follows it.
* `@media` and `@supports` rise out of the rule around them, which is repeated
  inside; a query inside a query is joined to it by `and`.
* A buffer rises in the same way, so that its content carries the selectors of
  the rules around it; it leaves nothing where it stands.
* A flush is replaced by copies of the content of its groups, laid out as far as
  the pass has come.  Declarations cannot be flushed at the root.

The last node of what a rule, a query or a flush leaves outside every rule ends
a group.

A node is laid out into two things (`Layout.Laid`): itself, changed, and what it
leaves where it stands.  The first is what stays of an `@else` clause, which stands
nowhere, and what a group is from then on for the flushes that refer to it.
-/

import Stylesheet.Evaluation

namespace Stylesheet

namespace Layout

/-- What is directly around a node. -/
inductive Around where
  /-- The document. -/
  | root
  /-- A rule, with its common part and its head. -/
  | rule (info : Info) (head : Head)
  /-- Anything else, or nothing. -/
  | other

/-- What the pass changes. -/
structure State where
  /-- The groups, laid out as far as the pass has come. -/
  groups : Groups
  /-- The notes. -/
  log : Log
  /-- The groups that have come to their end and the flushes that have been replaced,
  which nothing is read from. -/
  history : Array BufferStep := #[]

/-- A step of the pass. -/
abbrev Lay := ExceptT Failure (StateM State)

/-- Leaves a note. -/
def note (text : String) : Lay Unit :=
  modify fun s => { s with log := s.log.push { level := .debug, stage := .layout, text } }

/-- Adds to the history. -/
def record (step : BufferStep) : Lay Unit :=
  modify fun s => { s with history := s.history.push step }

/-- The list with its last node changed. -/
def changeLast (f : Node → Node) : List Node → List Node
  | [] => []
  | [n] => [f n]
  | n :: ns => n :: changeLast f ns

/-- The last node ends a group, unless it is directly inside a rule. -/
def markLast (around : Around) (nodes : List Node) : List Node :=
  match around with
  | .rule .. => nodes
  | _ => changeLast (Node.markGroupEnd true) nodes

/-- What a rule keeps. -/
def staysInRule (n : Node) : Bool :=
  n.kind == .declaration || n.kind == .comment

/-- What laying out a node comes to. -/
structure Laid where
  /-- The node itself. -/
  own : Node
  /-- What it leaves where it stands. -/
  left : List Node

/-- A node that leaves itself. -/
def Laid.stay (own : Node) : Laid :=
  { own, left := [own] }

/-- A node that leaves itself, unless it has become empty, and `others` after it. -/
def Laid.before (around : Around) (own : Node) (others : List Node) : Laid :=
  if own.children.isEmpty then { own, left := markLast around others }
  else
    let left := markLast around (own :: others)
    { own := left.headD own, left }

/-- A rule with laid-out content, and what is hoisted out of it. -/
def finishRule (around : Around) (info : Info) (head : Head) (laid : List Node) : Laid :=
  .before around (.plain info head (laid.filter staysInRule))
    (laid.filter fun n => !staysInRule n)

/-- Two queries joined. -/
def joinQueries (outer inner : Option String) : Option String :=
  some (outer.getD "None" ++ " and " ++ inner.getD "None")

/-- A query inside a query with the text `outer`. -/
def joinQuery (outer : Option String) : Node → Node
  | .plain i (.media q inner) cs => .plain i (.media q (joinQueries outer inner)) cs
  | n => n

/-- The queries among some nodes inside a query with the text `outer`. -/
def joinedQueries (outer : Option String) (laid : List Node) : List Node :=
  (laid.filter (·.kind == .media)).map (joinQuery outer)

/-- A query with laid-out content, and the queries that were inside it. -/
def finishMedia (around : Around) (info : Info) (query : Template) (resolved : Option String)
    (laid : List Node) : Laid :=
  .before around (.plain info (.media query resolved) (laid.filter (·.kind != .media)))
    (joinedQueries resolved laid)

/-- A condition with laid-out content. -/
def finishSupports (around : Around) (info : Info) (head : Head) (laid : List Node) : Laid :=
  .before around (.plain info head laid) []

/-- The content of a node that rises out of the rule around it: the rule is
repeated around the content.  Elsewhere it is the content as it is laid out. -/
def risen (around : Around) (laid : List Node) : List Node :=
  match around with
  | .rule info head =>
    changeLast (Node.markGroupEnd false) (finishRule .other info.apart head.copy laid).left
  | _ => laid

/-- What is around the content of a node that rises. -/
def Around.inside : Around → Around
  | rule info head => rule info.apart head.copy
  | _ => other

/-- What is around the content of a node. -/
def Around.content (around : Around) (info : Info) (head : Head) : Around :=
  match head with
  | .root => root
  | .rule .. => rule info head
  | .media .. | .supports .. | .buffer _ => around.inside
  | _ => other

/-- A node with its content laid out, and what it leaves where it stands. -/
def finish (around : Around) (info : Info) (head : Head) (laid : List Node) : Laid :=
  match head with
  | .rule .. => finishRule around info head laid
  | .media query resolved => finishMedia around info query resolved (risen around laid)
  | .supports .. => finishSupports around info head (risen around laid)
  | .buffer _ => { own := .plain info head (risen around laid), left := [] }
  | _ => .stay (.plain info head laid)

/-- The content of the groups of a flush, copied. -/
def flushed (groups : Groups) (captured : List GroupId) : List Node :=
  captured.flatMap fun g =>
    match groups[g]? with
    | some n => Node.copyAll n.children
    | none => []

/-- A flush replaced by the content of its groups. -/
def layFlush (around : Around) (info : Info) (name : BufferName) (captured : List GroupId) :
    Lay (List Node) := do
  let copies := flushed (← get).groups captured
  record (.flush name.resolved captured)
  note ("flush " ++ quotedText? name.resolved ++ ": " ++ toString captured.length ++
    " group(s), " ++ toString copies.length ++ " node(s)")
  match around with
  | .root =>
    if copies.any (·.kind == .declaration) then
      throw (.diagnostic
        { cause := .rootFlush (name.resolved.getD "None"), span := info.span })
    else return markLast around copies
  | _ => return markLast around copies

/-- Makes a node, if it is a group, what the flushes that refer to it find. -/
def keep (n : Node) : Lay Unit :=
  match n.info.group with
  | none => return ()
  | some g => modify fun s => { s with groups := s.groups.setIfInBounds g n }

/-- Keeps the queries that have been joined to a query around them, and writes down that
a group has come to its end. -/
def register (around : Around) (info : Info) (head : Head) (laid : List Node) : Lay Unit :=
  match head with
  | .media _ resolved => (joinedQueries resolved (risen around laid)).forM keep
  | .buffer name =>
    match info.group with
    | some g => record (.group g name.resolved)
    | none => return ()
  | _ => return ()

/-- Keeps what a node has come to. -/
def settle (laid : Laid) : Lay Laid := do
  keep laid.own
  return laid

/-- Whether the pass leaves alone what is in a node. -/
def isLeaf : Head → Bool
  | .declaration .. | .comment .. | .extend .. | .flush .. => true
  | _ => false

/-- What a node leaves that the pass does not go into. -/
def layLeaf (around : Around) (info : Info) (head : Head) (children : List Node) :
    Lay (List Node) :=
  match head with
  | .extend _ resolved => do
    note ("dropping @extend " ++ resolved.getD "None" ++ " (not supported)")
    return []
  | .flush name captured => layFlush around info name captured
  | _ => return [.plain info head children]

mutual

/-- Lays out a node. -/
def layNode (around : Around) : Node → Lay Laid
  | .plain info head children =>
    if isLeaf head then do
      let left ← layLeaf around info head children
      settle { own := .plain info head children, left }
    else do
      let laid ← layAll (around.content info head) children
      register around info head laid
      settle (finish around info head laid)
  | .cond info test children otherwise => do
    let laid ← layAll .other children
    let clause ← layOption around otherwise
    settle (.stay (.cond info test laid clause))

/-- What some nodes leave, one after the other. -/
def layAll (around : Around) : List Node → Lay (List Node)
  | [] => return []
  | n :: ns => do
    let first ← layNode around n
    let others ← layAll around ns
    return first.left ++ others

/-- A clause that may be absent, laid out. -/
def layOption (around : Around) : Option Node → Lay (Option Node)
  | none => return none
  | some n => do
    let laid ← layNode around n
    return some laid.own

end

end Layout

/-- Lays out a tree and the groups that its flushes refer to. -/
def Document.layOut (tree : Captured Node) : Logged (Captured (List Node)) := fun log =>
  let (outcome, state) :=
    (Layout.layNode .other tree.content).run.run { groups := tree.groups, log }
  match outcome with
  | .ok laid => (.ok { content := laid.left, groups := state.groups }, state.log)
  | .error f => (.error f, state.log)

end Stylesheet
