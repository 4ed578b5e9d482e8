/-
# Scopes

A scope holds the variables, mixins, functions and buffers that were made in it
and perhaps the selectors of a rule.  Scopes form a tree; what is looked up is
searched for in the scope and then in its ancestors, nearest first
(`Scopes.chain`).

A buffer entry is the list of the groups that were collected under a name, in
order.  A group is appended to the nearest entry of its name, or to a new one;
nothing is ever taken away.  Some scopes *own* new entries: the document and
every invocation of a mixin or function.  The others are blocks, which only
hold variables and selectors; `Scopes.owner` is the scope in which a block's new
entries are made.
-/

import Stylesheet.Node
import Stylesheet.Name
import Stylesheet.Options

namespace Stylesheet

/-- The number of a scope. -/
abbrev ScopeId := Nat

/-- Values by name, in the order in which the names came up. -/
abbrev Table (α : Type) := List (String × α)

namespace Table

variable {α : Type}

/-- The value of a name. -/
def get? (t : Table α) (name : String) : Option α :=
  List.lookup name t

/-- The table with the value of a name set: in its place if it is there, at the
end otherwise. -/
def set (t : Table α) (name : String) (value : α) : Table α :=
  match t with
  | [] => [(name, value)]
  | (k, v) :: rest => if k = name then (k, value) :: rest else (k, v) :: set rest name value

/-- The names of a table. -/
def names (t : Table α) : List String :=
  t.map Prod.fst

end Table

/-- A mixin or a function, with the scope it was defined in. -/
structure Definition where
  /-- Which of the two. -/
  what : Callable
  /-- The name as it was written. -/
  name : String
  /-- The parameters. -/
  params : List Parameter
  /-- The scope of the definition. -/
  scope : ScopeId
  /-- The content. -/
  body : List Node

/-- One scope. -/
structure Scope where
  /-- The scopes around it, nearest first. -/
  ancestors : List ScopeId := []
  /-- The options of the compilation. -/
  options : Options := {}
  /-- Whether new buffer entries of its blocks are made here. -/
  ownsBuffers : Bool := true
  /-- The variables. -/
  vars : Table Value := []
  /-- The mixins. -/
  mixins : Table Definition := []
  /-- The functions. -/
  functions : Table Definition := []
  /-- The buffer entries. -/
  buffers : Table (List GroupId) := []
  /-- The selectors of the rule that the scope belongs to. -/
  selector : Option (List String) := none

instance : Inhabited Scope := ⟨{}⟩

/-- All scopes, by their numbers. -/
structure Scopes where
  /-- The scopes. -/
  all : Array Scope := #[]

namespace Scopes

/-- The scope of a number. -/
def get (s : Scopes) (i : ScopeId) : Scope :=
  s.all.getD i {}

/-- The scope of a number changed. -/
def modify (s : Scopes) (i : ScopeId) (f : Scope → Scope) : Scopes :=
  { all := s.all.modify i f }

/-- A new scope, inside `parent` if there is one.  Unless it is told otherwise, it
takes the options of its parent, and it owns buffers only if it has none. -/
def add (s : Scopes) (parent : Option ScopeId) (options : Option Options)
    (ownsBuffers : Option Bool) : ScopeId × Scopes :=
  let scope : Scope :=
    match parent with
    | none => { options := options.getD {}, ownsBuffers := ownsBuffers.getD true }
    | some p =>
      { ancestors := p :: (s.get p).ancestors
        options := options.getD (s.get p).options
        ownsBuffers := ownsBuffers.getD false }
  (s.all.size, { all := s.all.push scope })

/-- A scope and the scopes around it, nearest first. -/
def chain (s : Scopes) (i : ScopeId) : List ScopeId :=
  i :: (s.get i).ancestors

/-- What the nearest scope that has it has. -/
def find? {α : Type} (s : Scopes) (i : ScopeId) (f : Scope → Option α) : Option α :=
  (s.chain i).findSome? fun j => f (s.get j)

/-- The nearest scope that satisfies a condition. -/
def nearest? (s : Scopes) (i : ScopeId) (p : Scope → Bool) : Option ScopeId :=
  (s.chain i).find? fun j => p (s.get j)

/-- The scope that has no parent. -/
def root (s : Scopes) (i : ScopeId) : ScopeId :=
  (s.get i).ancestors.getLastD i

/-- The value of a variable. -/
def var? (s : Scopes) (i : ScopeId) (name : String) : Option Value :=
  let key := Name.normalize name
  s.find? i fun scope => scope.vars.get? key

/-- Sets a variable in the scope itself. -/
def setLocalVar (s : Scopes) (i : ScopeId) (name : String) (value : Value) : Scopes :=
  s.modify i fun scope => { scope with vars := scope.vars.set (Name.normalize name) value }

/-- The scope that an assignment writes to: the nearest that has the variable, or
the scope itself if there is none. -/
def holder (s : Scopes) (i : ScopeId) (name : String) : ScopeId :=
  let key := Name.normalize name
  (s.nearest? i fun scope => (scope.vars.get? key).isSome).getD i

/-- Assigns to a variable. -/
def setVar (s : Scopes) (i : ScopeId) (name : String) (value : Value) : Scopes :=
  s.setLocalVar (s.holder i name) name value

/-- The mixin of a name. -/
def mixin? (s : Scopes) (i : ScopeId) (name : String) : Option Definition :=
  let key := Name.normalize name
  s.find? i fun scope => scope.mixins.get? key

/-- Defines a mixin in a scope. -/
def setMixin (s : Scopes) (i : ScopeId) (name : String) (d : Definition) : Scopes :=
  s.modify i fun scope => { scope with mixins := scope.mixins.set (Name.normalize name) d }

/-- The function of a name. -/
def function? (s : Scopes) (i : ScopeId) (name : String) : Option Definition :=
  let key := Name.normalize name
  s.find? i fun scope => scope.functions.get? key

/-- Defines a function in a scope. -/
def setFunction (s : Scopes) (i : ScopeId) (name : String) (d : Definition) : Scopes :=
  s.modify i fun scope =>
    { scope with functions := scope.functions.set (Name.normalize name) d }

/-- The selectors of the innermost rule around a scope. -/
def selector? (s : Scopes) (i : ScopeId) : Option (List String) :=
  s.find? i (·.selector)

/-- Sets the selectors of a scope. -/
def setSelector (s : Scopes) (i : ScopeId) (selector : Option (List String)) : Scopes :=
  s.modify i fun scope => { scope with selector }

/-- The scope in which new buffer entries are made. -/
def owner (s : Scopes) (i : ScopeId) : ScopeId :=
  (s.nearest? i (·.ownsBuffers)).getD (s.root i)

/-- The groups that are collected under a name. -/
def buffer? (s : Scopes) (i : ScopeId) (name : String) : Option (List GroupId) :=
  s.find? i fun scope => scope.buffers.get? name

/-- The nearest scope with an entry of a name. -/
def bufferHolder? (s : Scopes) (i : ScopeId) (name : String) : Option ScopeId :=
  s.nearest? i fun scope => (scope.buffers.get? name).isSome

/-- Makes an empty entry in a scope unless there is one to be found. -/
def declareBuffer (s : Scopes) (i : ScopeId) (name : String) : Scopes :=
  match s.bufferHolder? i name with
  | some _ => s
  | none => s.modify i fun scope => { scope with buffers := scope.buffers.set name [] }

/-- Appends a group to the nearest entry of a name, or to a new one. -/
def appendBuffer (s : Scopes) (i : ScopeId) (name : String) (group : GroupId) : Scopes :=
  let s := s.declareBuffer i name
  let holder := (s.bufferHolder? i name).getD i
  s.modify holder fun scope =>
    { scope with
      buffers := scope.buffers.set name (((scope.buffers.get? name).getD []) ++ [group]) }

/-- The names of the buffers that can be found, nearest first. -/
def bufferNames (s : Scopes) (i : ScopeId) : List String :=
  (s.chain i).foldl
    (fun seen j => seen ++ (s.get j).buffers.names.filter fun n => !seen.contains n) []

end Scopes
end Stylesheet
