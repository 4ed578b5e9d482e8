/-
# What a visit can do

A `Conduct` is something that evaluations are held to: which worlds and which values are known,
which nodes are visited somewhere (a `κ`), what may become of them, and which courses the parts
of an evaluation follow.  It is `Lawful` if every single thing that a visit can do keeps to it:
computing with values (`Computes`), going into what is inside a node (`Conduct.Visits`), finding
something in the scopes (`Conduct.Finds`), leaving nodes behind (`Conduct.Makes`) and changing
the world (`Conduct.Moves`).

Evaluators of statements and of expressions are gone through once, for every conduct that is
lawful, in `Stylesheet.Proofs.Evaluation.Conducted`.
-/

import Stylesheet.Proofs.Evaluation.Course
import Stylesheet.Proofs.Node.Expansion
import Stylesheet.Proofs.Value.Raised

namespace Stylesheet

/-- The selectors of a rule. -/
def Head.selectors? : Head → Option (List String)
  | rule _ selectors => selectors
  | _ => none

/-! ### Values and expressions -/

/-- Computations with values that are known, in expressions that are, come to such values or
fail as they may. -/
structure Computes (value : Value → Prop) (expr : Expr → Prop) (fails : Failure → Prop) :
    Prop where
  null : value .null
  string : ∀ s quoted, value (.string s quoted)
  list : ∀ {vs separator}, (∀ v ∈ vs, value v) → value (.list vs separator)
  items : ∀ {v}, value v → ∀ u ∈ v.items, value u
  cause : ∀ c, fails (.ofCause c)
  css : ∀ {v}, value v → Ends fails (liftRange v.css) fun _ => True
  plain : ∀ {v}, value v → Ends fails (liftRange v.plain) fun _ => True
  whole : ∀ {x unit}, value (.number x unit) → Ends fails (liftRange x.asWhole) fun _ => True
  operate : ∀ op {v u}, value v → value u → Ends fails (Value.operate op v u) value
  operateUnary : ∀ op {v}, value v → Ends fails (Value.operateUnary op v) value
  literal : ∀ {v}, expr (.literal v) → value v
  binary : ∀ {left op right}, expr (.binary left op right) → expr left ∧ expr right
  unary : ∀ {op e}, expr (.unary op e) → expr e
  call : ∀ {name args keywords}, expr (.call name args keywords) →
    (∀ e ∈ args, expr e) ∧ ∀ k ∈ keywords, expr k.2
  apply : ∀ {name args keywords fn vs x}, expr (.call name args keywords) →
    Builtin.find? name = some fn → (∀ v ∈ vs, value v) → fn.apply vs = some x → Ends fails x value
  elements : ∀ {items separator}, expr (.list items separator) → ∀ e ∈ items, expr e
  holes : ∀ {fragments quoted}, expr (.interpolation fragments quoted) →
    ∀ e, .hole e ∈ fragments → expr e

/-- Whatever is computed fails as what does not know its place. -/
theorem computes_raised : Computes (fun _ => True) (fun _ => True) Failure.Raised where
  null := trivial
  string _ _ := trivial
  list _ := trivial
  items _ _ _ := trivial
  cause := .cause
  css _ := Raises.liftRange _
  plain _ := Raises.liftRange _
  whole _ := Raises.liftRange _
  operate op v u _ _ := Value.raises_operate v u op
  operateUnary op v _ := Value.raises_operateUnary v op
  literal _ := trivial
  binary _ := ⟨trivial, trivial⟩
  unary _ := trivial
  call _ := ⟨fun _ _ => trivial, fun _ _ => trivial⟩
  apply _ _ _ applied := Builtin.raises_apply _ applied
  elements _ _ _ := trivial
  holes _ _ _ := trivial

/-! ### Conducts -/

/-- What evaluations are held to, where nodes are visited at places of type `κ`. -/
structure Conduct (κ : Type) where
  /-- The worlds that an evaluation in a scope may start from. -/
  known : ScopeId → World → Prop
  /-- The values that may come up. -/
  value : Value → Prop := fun _ => True
  /-- The expressions that are evaluated. -/
  expr : Expr → Prop := fun _ => True
  /-- The failures that may be raised within a node. -/
  fails : Failure → Prop := Failure.Raised
  /-- The selectors that a rule may have. -/
  selector : List String → Prop := fun _ => True
  /-- The nodes that are visited somewhere. -/
  visited : κ → Node → Prop
  /-- Where the bodies of mixins are. -/
  mixin : κ
  /-- Where the bodies of functions are. -/
  function : κ
  /-- What a node may become. -/
  gives : κ → Node → List Node → Prop := fun _ _ _ => True
  /-- An expression. -/
  expression : (i : ScopeId) → Course (known i)
  /-- The call of a function, in the scope that is made for it. -/
  call : (i : ScopeId) → Course (known i)
  /-- The inclusion of a mixin, in the scope that is made for it. -/
  inclusion : (i : ScopeId) → Course (known i)
  /-- A body, in the block that is made for it. -/
  block : κ → (i : ScopeId) → Course (known i)
  /-- What is done within a node. -/
  node : κ → Node → (i : ScopeId) → Course (known i)
  /-- The visit of a node. -/
  visit : κ → Node → (i : ScopeId) → Course (known i)

namespace Conduct

variable {κ : Type} (a : Conduct κ)

/-- The holes of a template are known. -/
def Template (t : Template) : Prop :=
  ∀ e, .hole e ∈ t → a.expr e

/-- An expression that has to be there is known, or may be missing. -/
def Required (o : Option Expr) : Prop :=
  (∀ e ∈ o, a.expr e) ∧ (o = none → a.fails .missingExpression)

/-- The defaults of parameters are known. -/
def Defaults (params : List Parameter) : Prop :=
  ∀ p ∈ params, ∀ e ∈ p.2, a.expr e

/-- What a statement with this head evaluates is known. -/
def Admits : Head → Prop
  | .root | .importSheet _ | .comment .. => True
  | .rule t _ | .directive t _ _ | .media t _ | .supports t _ | .extend t _ => a.Template t
  | .declaration name value _ _ => a.Template name ∧ ∀ e ∈ value, a.expr e
  | .assignment _ e _ | .eachLoop _ e | .whileLoop e | .result e | .debug e | .warn e =>
    a.Required e
  | .forLoop _ start stop _ =>
    a.Required start ∧ a.Required stop ∧ ∀ (k : Int) unit, a.value (.number (.int k) unit)
  | .mixin _ params | .function _ params => a.Defaults params
  | .inclusion _ args keywords => (∀ e ∈ args, a.expr e) ∧ ∀ k ∈ keywords, a.expr k.2
  | .buffer name | .flush name _ => a.Template name.written

/-- Where all values and expressions are known, every head is admitted. -/
theorem admits_of_all (value : ∀ v, a.value v) (expr : ∀ e, a.expr e)
    (missing : a.fails .missingExpression) (head : Head) : a.Admits head := by
  have template (t : Stylesheet.Template) : a.Template t := fun e _ => expr e
  have required (o : Option Expr) : a.Required o := ⟨fun e _ => expr e, fun _ => missing⟩
  cases head with
  | root | importSheet | comment => trivial
  | rule | directive | media | supports | extend | buffer | flush => exact template _
  | declaration => exact ⟨template _, fun e _ => expr e⟩
  | assignment | eachLoop | whileLoop | result | debug | warn => exact required _
  | forLoop => exact ⟨required _, required _, fun _ _ => value _⟩
  | mixin | function => exact fun _ _ e _ => expr e
  | inclusion => exact ⟨fun e _ => expr e, fun _ _ => expr _⟩

/-- What some nodes may become, one after the other. -/
def GivesAll (k : κ) (ns ms : List Node) : Prop :=
  ∃ mss, List.Forall₂ (a.gives k) ns mss ∧ mss.flatten = ms

variable {a} in
/-- What holds of whatever one of some nodes may become holds of what they become. -/
theorem GivesAll.forall {k : κ} {ns ms : List Node} {made : Node → Prop} (h : a.GivesAll k ns ms)
    (each : ∀ n ms, a.gives k n ms → ∀ m ∈ ms, made m) : ∀ m ∈ ms, made m := by
  obtain ⟨mss, all, rfl⟩ := h
  induction all with
  | nil => exact nofun
  | cons given _ ih =>
    intro m hm
    rw [List.flatten_cons, List.mem_append] at hm
    exact hm.elim (each _ _ given m) (ih m)

/-- What is inside a node that is visited is known, and visited if it is evaluated. -/
structure Visits : Prop where
  heads : ∀ {k info head cs}, a.visited k (.plain info head cs) → a.Admits head
  inside : ∀ {k info head cs}, a.visited k (.plain info head cs) →
    (head.entered || head.kind.isControl) → ∀ n ∈ cs, a.visited k n
  tests : ∀ {k info test cs o}, a.visited k (.cond info test cs o) → ∀ e ∈ test, a.expr e
  clause : ∀ {k info test cs o}, a.visited k (.cond info test cs o) →
    (∀ n ∈ cs, a.visited k n) ∧ ∀ n ∈ o, a.visited k n

/-- What is found in the scopes is known. -/
structure Finds : Prop where
  values : ∀ {i w name v}, a.known i w → w.scopes.var? i name = some v → a.value v
  selectors : ∀ {i w} (j : ScopeId), a.known i w → ∀ p ∈ w.scopes.selector? j, a.selector p
  functions : ∀ {i w name d}, a.known i w → w.scopes.function? i name = some d →
    a.Defaults d.params ∧ ∀ n ∈ d.body, a.visited a.function n
  mixins : ∀ {i w name d}, a.known i w → w.scopes.mixin? i name = some d →
    a.Defaults d.params ∧ ∀ n ∈ d.body, a.visited a.mixin n
  resolve : ∀ {text parents found}, (∀ p ∈ parents, a.selector p) →
    Selector.resolve text parents = .ok found → a.selector found

/-- What a node may become, from what is inside it or what it stands for. -/
structure Makes : Prop where
  /-- Whatever it is, it may leave nothing. -/
  gone : ∀ {k n}, a.visited k n → a.gives k n []
  /-- What is not gone into keeps what is inside it. -/
  leaf : ∀ {k info head head' cs}, a.visited k (.plain info head cs) → head.Resolves head' →
    head.entered = false → a.gives k (.plain info head cs) [.plain info.apart head' cs]
  block : ∀ {k info info' head head' cs ms}, a.visited k (.plain info head cs) →
    head.Resolves head' → head.entered → info'.apart = info.apart →
      (∀ s ∈ head'.selectors?, a.selector s) → a.GivesAll k cs ms →
        a.gives k (.plain info head cs) [.plain info' head' ms]
  /-- A loop goes round once more. -/
  again : ∀ {k info head cs ms ms'}, a.visited k (.plain info head cs) → head.kind.isControl →
    a.gives k (.plain info head cs) ms → a.GivesAll k cs ms' →
      a.gives k (.plain info head cs) (ms ++ ms')
  clause : ∀ {k info test cs o ms}, a.visited k (.cond info test cs o) → a.GivesAll k cs ms →
    a.gives k (.cond info test cs o) ms
  otherwise : ∀ {k info test cs n ms}, a.visited k (.cond info test cs (some n)) →
    a.gives k n ms → a.gives k (.cond info test cs (some n)) ms
  inclusion : ∀ {k info name args keywords cs i w d ms},
    a.visited k (.plain info (.inclusion name args keywords) cs) → a.known i w →
      w.scopes.mixin? i name = some d → a.GivesAll a.mixin d.body ms →
        a.gives k (.plain info (.inclusion name args keywords) cs) ms

section

variable {a} (value : ∀ v, a.value v) (expr : ∀ e, a.expr e) (missing : a.fails .missingExpression)
  (selector : ∀ s, a.selector s) (visited : ∀ k n, a.visited k n) (gives : ∀ k n ms, a.gives k n ms)

include value expr missing visited in
/-- Where every node is visited, so is what is inside. -/
theorem visits_of_all : a.Visits where
  heads _ := a.admits_of_all value expr missing _
  inside _ _ _ _ := visited _ _
  tests _ _ _ := expr _
  clause _ := ⟨fun _ _ => visited _ _, fun _ _ => visited _ _⟩

include value expr selector visited in
/-- Where everything is known, whatever is found is known. -/
theorem finds_of_all : a.Finds where
  values _ _ := value _
  selectors _ _ _ _ := selector _
  functions _ _ := ⟨fun _ _ _ _ => expr _, fun _ _ => visited _ _⟩
  mixins _ _ := ⟨fun _ _ _ _ => expr _, fun _ _ => visited _ _⟩
  resolve _ _ := selector _

include gives in
/-- Where a node may become anything. -/
theorem makes_of_all : a.Makes where
  gone _ := gives _ _ _
  leaf _ _ _ := gives _ _ _
  block _ _ _ _ _ _ := gives _ _ _
  again _ _ _ _ := gives _ _ _
  clause _ _ := gives _ _ _
  otherwise _ _ := gives _ _ _
  inclusion _ _ _ _ := gives _ _ _

end

/-- A change that leads from a world that is known to another one, on a course. -/
def Allows {known : World → Prop} (c : Course known) (w w' : World) : Prop :=
  known w' ∧ c.goes w [] w'

/-- How the parts of an evaluation change the world and stop. -/
structure Moves : Prop where
  -- which courses are part of which
  expression_le_call : ∀ i, a.expression i ≤ a.call i
  call_le_inclusion : ∀ i, a.call i ≤ a.inclusion i
  block_le_inclusion : ∀ i, a.block a.mixin i ≤ a.inclusion i
  expression_le_node : ∀ {k n} i, a.visited k n → a.expression i ≤ a.node k n i
  visit_le_block : ∀ {k n} i, a.visited k n → a.visit k n i ≤ a.block k i
  clause_le_node : ∀ {k info test cs n} i, a.visited k (.cond info test cs (some n)) →
    a.visit k n i ≤ a.node k (.cond info test cs (some n)) i
  -- which scopes are opened inside which
  calls : ∀ {i w name d}, a.known i w → w.scopes.function? i name = some d →
    Course.Opens (a.call w.scopes.all.size) (a.expression i) w d.scope true
  /-- The arguments are evaluated after the mixin has been found. -/
  includes : ∀ {k info name args keywords cs i w w' d},
    a.visited k (.plain info (.inclusion name args keywords) cs) → a.known i w →
      w.scopes.mixin? i name = some d → a.known i w' → (a.expression i).goes w [] w' →
        Course.Opens (a.inclusion w'.scopes.all.size)
          (a.node k (.plain info (.inclusion name args keywords) cs) i) w' d.scope true
  opens : ∀ {k n i w}, a.visited k n → a.known i w →
    Course.Opens (a.block k w.scopes.all.size) (a.node k n i) w i false
  reopens : ∀ {i w} k, a.known i w →
    Course.Opens (a.block k w.scopes.all.size) (a.block k i) w i false
  -- what is done in a scope that has been opened
  parameter : ∀ {i w v} name, a.known i w → a.value v →
    Allows (a.call i) w { w with scopes := w.scopes.setLocalVar i name v }
  round : ∀ {i w v} k name, a.known i w → a.value v →
    Allows (a.block k i) w { w with scopes := w.scopes.setLocalVar i name v }
  selects : ∀ {i w} {selectors : Option (List String)} k, a.known i w →
    (∀ s ∈ selectors, a.selector s) →
      Allows (a.block k i) w { w with scopes := w.scopes.setSelector i selectors }
  -- what statements do
  assigns : ∀ {k info name e guarded cs i w v},
    a.visited k (.plain info (.assignment name e guarded) cs) → a.known i w → a.value v →
      Allows (a.node k (.plain info (.assignment name e guarded) cs) i) w
        { w with scopes := w.scopes.setVar i name v }
  definesMixin : ∀ {k info name params cs i w},
    a.visited k (.plain info (.mixin name params) cs) → a.known i w →
      Allows (a.node k (.plain info (.mixin name params) cs) i) w
        { w with
          scopes := w.scopes.setMixin i name
            { what := .mixin, name, params, scope := i, body := cs } }
  definesFunction : ∀ {k info name params cs i w},
    a.visited k (.plain info (.function name params) cs) → a.known i w →
      Allows (a.node k (.plain info (.function name params) cs) i) w
        { w with
          scopes := w.scopes.setFunction i name
            { what := .function, name, params, scope := i, body := cs } }
  /-- An evaluation tells nothing but details and warnings. -/
  notes : ∀ {k n i w} {note : Note}, a.visited k n → note.level ≠ .info → a.known i w →
    Allows (a.node k n i) w { w with log := w.log.push note }
  -- what nodes are come past
  leaf : ∀ {k info head head' cs i w}, a.visited k (.plain info head cs) → head.Resolves head' →
    head.entered = false → head.kind ≠ .flush → a.known i w →
      (a.node k (.plain info head cs) i).goes w [.plain info.apart head' cs] w
  around : ∀ {k info head head' cs ms i w w'}, a.visited k (.plain info head cs) →
    head.Resolves head' → head.entered → head.kind ≠ .buffer → a.known i w →
      (a.node k (.plain info head cs) i).goes w ms w' →
        (a.node k (.plain info head cs) i).goes w [.plain info.apart head' ms] w'
  /-- A buffer of nothing but comments drops them. -/
  declares : ∀ {k info name cs ms i w w'} (text : String),
    a.visited k (.plain info (.buffer name) cs) → a.known i w → a.known i w' →
      (a.node k (.plain info (.buffer name) cs) i).goes w ms w' → ms.all (·.kind == .comment) →
        let w'' := { w' with
          scopes := w'.scopes.declareBuffer (Evaluation.bufferScope w'.scopes i text) text }
        a.known i w'' ∧ (a.node k (.plain info (.buffer name) cs) i).goes w [] w''
  captures : ∀ {k info name cs ms i w w'} (text : String),
    a.visited k (.plain info (.buffer name) cs) → a.known i w → a.known i w' →
      (a.node k (.plain info (.buffer name) cs) i).goes w ms w' → a.GivesAll k cs ms →
        let keeper := Evaluation.bufferScope w'.scopes i text
        let group := Node.plain { info.apart with group := some w'.groups.size }
          (.buffer { name with resolved := some text }) ms
        let scopes := w'.scopes.appendBuffer keeper text w'.groups.size
        let w'' := { w' with
          groups := w'.groups.push group
          scopes
          history := w'.history.push
            (scopes.bufferHolder? keeper text, .group w'.groups.size (some text)) }
        a.known i w'' ∧ (a.node k (.plain info (.buffer name) cs) i).goes w [group] w''
  flushes : ∀ {k info name old cs i w} (text : String),
    a.visited k (.plain info (.flush name old) cs) → a.known i w →
      let found := (w.scopes.buffer? i text).getD []
      let w' := { w with
        history := w.history.push (w.scopes.bufferHolder? i text, .flush (some text) found) }
      a.known i w' ∧ (a.node k (.plain info (.flush name old) cs) i).goes w
        [.plain info.apart (.flush { name with resolved := some text } found) cs] w'
  -- how an evaluation stops
  raises : ∀ {i w f}, a.known i w → a.fails f → (a.expression i).stops w (.failure f) w
  exhausted : ∀ {i w}, a.known i w → (a.expression i).stops w .exhausted w
  returns : ∀ {k info e cs i w v}, a.visited k (.plain info (.result e) cs) → a.known i w →
    a.value v → (a.node k (.plain info (.result e) cs) i).stops w (.result v) w
  /-- A call ends at a result in the body of the function. -/
  catches : ∀ i, Course.Catches a.value (a.block a.function i) (a.call i)

/-- Whether what happens within a node that is visited leaves it as a visit does. -/
def Leaves : Prop :=
  ∀ (i : ScopeId) {k n}, a.visited k n → Course.Leaves n.info.span (a.node k n i) (a.visit k n i)

/-- A conduct that everything an evaluation does keeps to. -/
structure Lawful : Prop where
  computes : Computes a.value a.expr a.fails
  visits : a.Visits
  finds : a.Finds
  makes : a.Makes
  moves : a.Moves

end Conduct
end Stylesheet
