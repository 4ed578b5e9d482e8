/-
# Contracts of an evaluation

A `Contract` says what is known of the nodes that an evaluation visits and of what it makes
of them: what comes out (`made`), which selectors a rule may have (`selector`), how a visit
may fail (`placed`) and where it may end at a result (`results`).  The nodes that are visited
are known by where they are, which is something of the type `κ`; the bodies of mixins and of
functions are wherever they were put when they were defined.

If a contract is `Lawful`, everything that a visit can do keeps to it (`Contract.conduct`): the
worlds stay ones that the contract knows (`Contract.Met`), and what a run comes to is what the
contract says (`Evaluation.keeps_of_run`).  Within a node, expressions end at no result, because
a call catches those of the body of its function.  What failures are raised there is known in
any case; they do not know their place (`Failure.Raised`) until they leave the node.
-/

import Stylesheet.Proofs.Evaluation.Conducted

namespace Stylesheet

/-- What evaluations are held to. -/
structure Contract (κ : Type) where
  /-- The nodes that are visited somewhere. -/
  visited : κ → Node → Prop
  /-- Where the bodies of mixins are. -/
  mixin : κ
  /-- Where the bodies of functions are. -/
  function : κ
  /-- Where a visit may end at a result. -/
  results : κ → Prop
  /-- The selectors that a rule may have. -/
  selector : List String → Prop
  /-- The nodes that may come out. -/
  made : Node → Prop
  /-- The notes that may have been left while an evaluation goes on. -/
  noted : Log → Prop
  /-- The failures that a visit may end with, and the notes left until then. -/
  placed : Failure → Log → Prop

namespace Contract

open Scopes

variable {κ : Type} (c : Contract κ)

/-- A contract that every step of an evaluation keeps to. -/
structure Lawful : Prop where
  /-- What is evaluated with a node is where the node is. -/
  inside : ∀ {k info head cs}, c.visited k (.plain info head cs) →
    (head.entered || head.kind.isControl) → ∀ n ∈ cs, c.visited k n
  clause : ∀ {k info test cs o}, c.visited k (.cond info test cs o) →
    (∀ n ∈ cs, c.visited k n) ∧ ∀ n ∈ o, c.visited k n
  ofMixin : ∀ {k info name params cs}, c.visited k (.plain info (.mixin name params) cs) →
    ∀ n ∈ cs, c.visited c.mixin n
  ofFunction : ∀ {k info name params cs}, c.visited k (.plain info (.function name params) cs) →
    ∀ n ∈ cs, c.visited c.function n
  ofResult : ∀ {k info e cs}, c.visited k (.plain info (.result e) cs) → c.results k
  /-- A mixin lets no result out of the place of its inclusion. -/
  ofInclusion : ∀ {k info name args keywords cs},
    c.visited k (.plain info (.inclusion name args keywords) cs) → c.results c.mixin → c.results k
  resolve : ∀ {text parents found}, (∀ p ∈ parents, c.selector p) →
    Selector.resolve text parents = .ok found → c.selector found
  /-- What is not entered keeps what is inside it. -/
  leaf : ∀ {k info head head' cs}, c.visited k (.plain info head cs) → head.Resolves head' →
    head.entered = false → c.made (.plain info.apart head' cs)
  block : ∀ {k info info' head head' cs cs'}, c.visited k (.plain info head cs) →
    head.Resolves head' → head.entered → info'.apart = info.apart →
      (∀ s ∈ head'.selectors?, c.selector s) → (∀ m ∈ cs', c.made m) →
        c.made (.plain info' head' cs')
  /-- An evaluation tells nothing but details and warnings. -/
  note : ∀ {log : Log} {n : Note}, n.level ≠ .info → c.noted log → c.noted (log.push n)

/-- Whether an evaluation within a node may fail so, with these notes. -/
def Fails (f : Failure) (log : Log) : Prop :=
  f.Raised ∧ c.noted log ∨ c.placed f log

/-- Whether a failure within a node leaves it as a visit may fail. -/
def Locates (n : Node) : Prop :=
  ∀ f log, c.Fails f log → c.placed (f.locate n.info.span) log

/-- Whether an evaluation within a node may be interrupted so, where results are allowed or
not. -/
def Within (results : Prop) : Interrupt → Log → Prop
  | .failure f, log => c.Fails f log
  | .result _, log => results ∧ c.noted log
  | .exhausted, _ => True

/-- Whether a visit may be interrupted so. -/
def Outside (k : κ) : Interrupt → Log → Prop
  | .failure f, log => c.placed f log
  | .result _, log => c.results k ∧ c.noted log
  | .exhausted, _ => True

/-- The scopes that a contract knows: their definitions are made of what is visited, and
their selectors are ones that a rule may have. -/
structure Scoped (s : Scopes) : Prop where
  mixins : ∀ i name d, (s.get i).mixins.get? name = some d → ∀ n ∈ d.body, c.visited c.mixin n
  functions : ∀ i name d, (s.get i).functions.get? name = some d →
    ∀ n ∈ d.body, c.visited c.function n
  selectors : ∀ i, ∀ p ∈ (s.get i).selector, c.selector p

/-- The worlds that a contract knows, of the groups those from number `base` on. -/
structure Met (base : Nat) (w : World) : Prop where
  scopes : c.Scoped w.scopes
  groups : ∀ (g : Nat) n, base ≤ g → w.groups[g]? = some n → c.made n

variable {c} {s : Scopes}

namespace Scoped

variable (h : c.Scoped s)

include h

/-- A store with the same definitions and selectors. -/
theorem of_same {s' : Scopes} (mixins : ∀ j, (s'.get j).mixins = (s.get j).mixins)
    (functions : ∀ j, (s'.get j).functions = (s.get j).functions)
    (selectors : ∀ j, (s'.get j).selector = (s.get j).selector) : c.Scoped s' where
  mixins i name d e := h.mixins i name d (by rwa [mixins] at e)
  functions i name d e := h.functions i name d (by rwa [functions] at e)
  selectors i p e := h.selectors i p (by rwa [selectors] at e)

/-- A new scope has no definitions. -/
theorem add (parent : Option ScopeId) (options : Option Options) (owns : Option Bool) :
    c.Scoped (s.add parent options owns).2 :=
  h.of_same (get_add_field (·.mixins) (fun _ _ _ => rfl) _ _ _)
    (get_add_field (·.functions) (fun _ _ _ => rfl) _ _ _)
    (get_add_field (·.selector) (fun _ _ _ => rfl) _ _ _)

/-- A change of one scope that keeps its definitions and its selectors. -/
theorem modify (i : ScopeId) {f : Scope → Scope} (mixins : ∀ a, (f a).mixins = a.mixins)
    (functions : ∀ a, (f a).functions = a.functions)
    (selectors : ∀ a, (f a).selector = a.selector) :
    c.Scoped (s.modify i f) :=
  h.of_same (get_modify_field (·.mixins) (mixins _)) (get_modify_field (·.functions) (functions _))
    (get_modify_field (·.selector) (selectors _))

/-- A variable is neither a definition nor a selector. -/
theorem setLocalVar (i : ScopeId) (name : String) (v : Value) : c.Scoped (s.setLocalVar i name v) :=
  h.modify i (fun _ => rfl) (fun _ => rfl) fun _ => rfl

/-- The name of a buffer is neither a definition nor a selector. -/
theorem declareBuffer (i : ScopeId) (name : String) : c.Scoped (s.declareBuffer i name) := by
  unfold Scopes.declareBuffer
  split
  · exact h
  · exact h.modify i (fun _ => rfl) (fun _ => rfl) fun _ => rfl

/-- An entry of a buffer is neither a definition nor a selector. -/
theorem appendBuffer (i : ScopeId) (name : String) (g : GroupId) :
    c.Scoped (s.appendBuffer i name g) :=
  (h.declareBuffer i name).modify _ (fun _ => rfl) (fun _ => rfl) fun _ => rfl

/-- A mixin is defined whose body is visited where mixins are. -/
theorem setMixin (i : ScopeId) (name : String) {d : Definition}
    (known : ∀ n ∈ d.body, c.visited c.mixin n) : c.Scoped (s.setMixin i name d) where
  mixins := Scopes.all_setMixin h.mixins i name known
  functions j x e he := h.functions j x e (by rwa [functions_setMixin] at he)
  selectors j p e := h.selectors j p (by
    rwa [Scopes.setMixin, get_modify_field (·.selector) rfl] at e)

/-- A function is defined whose body is visited where functions are. -/
theorem setFunction (i : ScopeId) (name : String) {d : Definition}
    (known : ∀ n ∈ d.body, c.visited c.function n) : c.Scoped (s.setFunction i name d) where
  mixins j x e he := h.mixins j x e (by rwa [mixins_setFunction] at he)
  functions := Scopes.all_setFunction h.functions i name known
  selectors j p e := h.selectors j p (by
    rwa [Scopes.setFunction, get_modify_field (·.selector) rfl] at e)

/-- A scope gets selectors that a rule may have. -/
theorem setSelector (i : ScopeId) {selector : Option (List String)}
    (known : ∀ p ∈ selector, c.selector p) : c.Scoped (s.setSelector i selector) := by
  refine { h with mixins := fun j => ?_, functions := fun j => ?_, selectors := fun j => ?_ }
  · rw [Scopes.setSelector, get_modify_field (·.mixins) rfl]
    exact h.mixins j
  · rw [Scopes.setSelector, get_modify_field (·.functions) rfl]
    exact h.functions j
  · rcases s.get_modify i _ j with same | ⟨rfl, new⟩
    · exact fun p hp => h.selectors j p (same ▸ hp)
    · rw [Scopes.setSelector, new]
      exact known

/-- The body of a mixin that is found is visited where mixins are. -/
theorem of_mixin? {i : ScopeId} {name : String} {d : Definition}
    (found : s.mixin? i name = some d) : ∀ n ∈ d.body, c.visited c.mixin n := by
  obtain ⟨j, -, e⟩ := Scopes.exists_of_mixin? found
  exact h.mixins j _ d e

/-- The body of a function that is found is visited where functions are. -/
theorem of_function? {i : ScopeId} {name : String} {d : Definition}
    (found : s.function? i name = some d) : ∀ n ∈ d.body, c.visited c.function n := by
  obtain ⟨j, -, e⟩ := Scopes.exists_of_function? found
  exact h.functions j _ d e

/-- The selectors that are found are ones that a rule may have. -/
theorem of_selector? {i : ScopeId} : ∀ p ∈ s.selector? i, c.selector p := by
  intro p found
  obtain ⟨j, -, e⟩ := Scopes.exists_of_find? (f := Scope.selector) found
  exact h.selectors j p e

end Scoped

/-- Where results are allowed, everything is allowed that is so without them. -/
theorem Within.mono {p q : Prop} (h : p → q) {i : Interrupt} {log : Log}
    (hi : c.Within p i log) : c.Within q i log := by
  cases i with
  | failure f => exact hi
  | result v => exact ⟨h hi.1, hi.2⟩
  | exhausted => trivial

/-- What may end a visit may happen within a node around it. -/
theorem Outside.within {k : κ} {i : Interrupt} {log : Log} (hi : c.Outside k i log) :
    c.Within (c.results k) i log := by
  cases i with
  | failure f => exact .inr hi
  | result v => exact hi
  | exhausted => trivial

end Contract

namespace Contract

open Eval

variable {κ : Type} (c : Contract κ) (base : Nat)

/-- The course of evaluations in worlds that a contract knows, which may stop so. -/
def course (stops : Interrupt → Log → Prop) :
    Course fun w => c.Met base w ∧ c.noted w.log :=
  .leaving _ fun i w => c.Met base w ∧ stops i w.log

/-- **A contract is a conduct**: it looks at the worlds and at what comes out. -/
def conduct : Conduct κ where
  known _ w := c.Met base w ∧ c.noted w.log
  selector := c.selector
  visited := c.visited
  mixin := c.mixin
  function := c.function
  gives _ _ ms := ∀ m ∈ ms, c.made m
  expression _ := c.course base (c.Within False)
  call _ := c.course base (c.Within False)
  inclusion _ := c.course base (c.Within (c.results c.mixin))
  block k _ := c.course base (c.Outside k)
  node k _ _ := c.course base (c.Within (c.results k))
  visit k _ _ := c.course base (c.Outside k)

variable {c base} {w : World} {stops stops' : Interrupt → Log → Prop}

/-- A course that may stop for more reasons. -/
theorem course_mono (h : ∀ i log, stops i log → stops' i log) :
    c.course base stops ≤ c.course base stops' :=
  Course.leaving_mono fun _ _ ⟨met, stopping⟩ => ⟨met, h _ _ stopping⟩

/-- An expression may be evaluated where results are allowed, too. -/
theorem course_anywhere {p : Prop} :
    c.course base (c.Within False) ≤ c.course base (c.Within p) :=
  course_mono fun _ _ => .mono False.elim

/-- A visit may be made within a node that lets its results out. -/
theorem course_inside {k : κ} {p : Prop} (h : c.results k → p) :
    c.course base (c.Outside k) ≤ c.course base (c.Within p) :=
  course_mono fun _ _ stopping => stopping.within.mono h

/-- A new scope is opened wherever one may stop for as many reasons. -/
theorem opens_course (hw : c.Met base w ∧ c.noted w.log) (p : ScopeId) (owns : Bool)
    (h : ∀ i log, stops i log → stops' i log) :
    Course.Opens (c.course base stops) (c.course base stops') w p owns where
  known := ⟨⟨hw.1.scopes.add (some p) none (some owns), hw.1.groups⟩, hw.2⟩
  goes hw' _ := ⟨hw', trivial⟩
  stops stopping := ⟨stopping.1, h _ _ stopping.2⟩

/-- A change of the scopes that a contract knows. -/
theorem allows_scopes (hw : c.Met base w ∧ c.noted w.log) {s : Scopes} (known : c.Scoped s) :
    Conduct.Allows (c.course base stops) w { w with scopes := s } :=
  ⟨⟨⟨known, hw.1.groups⟩, hw.2⟩, trivial⟩

/-- A new group is one that may come out. -/
theorem Met.push (hw : c.Met base w) {n : Node} (made : c.made n) (g : Nat) {m : Node}
    (later : base ≤ g) (found : (w.groups.push n)[g]? = some m) : c.made m := by
  rw [Array.getElem?_push] at found
  split at found
  · exact Option.some.inj found ▸ made
  · exact hw.groups g m later found

variable (lawful : c.Lawful)

include lawful

/-- What an evaluation does to the world keeps to a lawful contract. -/
theorem moves_conduct : (c.conduct base).Moves where
  expression_le_call _ := Course.le_refl _
  call_le_inclusion _ := course_anywhere
  block_le_inclusion _ := course_inside id
  expression_le_node _ _ := course_anywhere
  visit_le_block _ _ := Course.le_refl _
  clause_le_node _ _ := course_inside id
  calls hw _ := opens_course hw _ _ fun _ _ => id
  includes visited _ _ hw' _ := opens_course hw' _ _ fun _ _ => .mono (lawful.ofInclusion visited)
  opens _ hw := opens_course hw _ _ fun _ _ h => h.within
  reopens _ hw := opens_course hw _ _ fun _ _ => id
  parameter name hw _ := allows_scopes hw (hw.1.scopes.setLocalVar _ name _)
  round _ name hw _ := allows_scopes hw (hw.1.scopes.setLocalVar _ name _)
  selects _ hw known := allows_scopes hw (hw.1.scopes.setSelector _ known)
  assigns _ hw _ := allows_scopes hw (hw.1.scopes.setLocalVar _ _ _)
  definesMixin visited hw := allows_scopes hw (hw.1.scopes.setMixin _ _ (lawful.ofMixin visited))
  definesFunction visited hw :=
    allows_scopes hw (hw.1.scopes.setFunction _ _ (lawful.ofFunction visited))
  notes _ other hw := ⟨⟨⟨hw.1.scopes, hw.1.groups⟩, lawful.note other hw.2⟩, trivial⟩
  leaf _ _ _ _ _ := trivial
  around _ _ _ _ _ _ := trivial
  declares text _ _ hw' _ _ := ⟨⟨⟨hw'.1.scopes.declareBuffer _ text, hw'.1.groups⟩, hw'.2⟩, trivial⟩
  captures {_ info name cs ms _ _ w'} text visited _ hw' _ given := by
    have made : c.made (.plain { info.apart with group := some w'.groups.size }
        (.buffer { name with resolved := some text }) ms) :=
      lawful.block visited (.buffer name _) rfl rfl nofun (given.forall fun _ _ => id)
    exact ⟨⟨⟨hw'.1.scopes.appendBuffer _ text _, fun g _ => hw'.1.push made g⟩, hw'.2⟩, trivial⟩
  flushes _ _ hw := ⟨⟨⟨hw.1.scopes, hw.1.groups⟩, hw.2⟩, trivial⟩
  raises hw raised := ⟨hw.1, .inl ⟨raised, hw.2⟩⟩
  exhausted hw := ⟨hw.1, trivial⟩
  returns visited hw _ := ⟨hw.1, lawful.ofResult visited, hw.2⟩
  catches _ :=
    { goes := fun _ _ => trivial
      failure := fun h => ⟨h.1, .inr h.2⟩
      result := fun h => ⟨⟨h.1, h.2.2⟩, trivial, trivial⟩
      exhausted := fun h => ⟨h.1, trivial⟩ }

/-- **A lawful contract is a lawful conduct.**. -/
theorem lawful_conduct : (c.conduct base).Lawful where
  computes := computes_raised
  visits :=
    { heads := fun _ => (c.conduct base).admits_of_all (fun _ => trivial) (fun _ => trivial)
        .missing _
      inside := fun visited => lawful.inside visited
      tests := fun _ _ _ => trivial
      clause := fun visited => lawful.clause visited }
  finds :=
    { values := fun _ _ => trivial
      selectors := fun _ hw => hw.1.scopes.of_selector?
      functions := fun hw found => ⟨fun _ _ _ _ => trivial, hw.1.scopes.of_function? found⟩
      mixins := fun hw found => ⟨fun _ _ _ _ => trivial, hw.1.scopes.of_mixin? found⟩
      resolve := fun known => lawful.resolve known }
  makes :=
    { gone := fun _ => nofun
      leaf := fun visited resolves leaf =>
        List.forall_mem_singleton.2 (lawful.leaf visited resolves leaf)
      block := fun visited resolves entered apart selectors given =>
        List.forall_mem_singleton.2 (lawful.block visited resolves entered apart selectors
          (given.forall fun _ _ => id))
      again := fun _ _ before given => List.forall_mem_append.2 ⟨before, given.forall fun _ _ => id⟩
      clause := fun _ given => given.forall fun _ _ => id
      otherwise := fun _ given => given
      inclusion := fun _ _ _ given => given.forall fun _ _ => id }
  moves := moves_conduct lawful

omit lawful in
/-- A failure leaves a node with its place. -/
theorem leaves_conduct {k : κ} {n : Node} (locates : c.Locates n) (i : ScopeId) :
    Course.Leaves n.info.span ((c.conduct base).node k n i) ((c.conduct base).visit k n i) where
  goes := id
  failure h := ⟨h.1, locates _ _ h.2⟩
  result h := h
  exhausted h := h

end Contract

/-- Evaluators that keep to a contract. -/
def Recursion.Keeps {κ : Type} (c : Contract κ) (base : Nat) (r : Recursion) : Prop :=
  r.Conducted (c.conduct base)

/-- **Evaluators keep to a lawful contract**, however deep they go. -/
theorem Recursion.keeps_ofDepth {κ : Type} {c : Contract κ} (lawful : c.Lawful)
    (locates : ∀ k n, c.visited k n → c.Locates n) (base n : Nat) : (ofDepth n).Keeps c base :=
  conducted_ofDepth (Contract.lawful_conduct lawful)
    (fun i k n visited => Contract.leaves_conduct (locates k n visited) i) n

/-- An evaluation starts in a world that every contract knows. -/
theorem Contract.met_start {κ : Type} (c : Contract κ) (options : Options) (groups : Groups)
    (log : Log) : c.Met groups.size (Evaluation.start options groups log).2 where
  scopes := by
    have same : (Evaluation.start options groups log).2.scopes =
      (Evaluation.start options #[] log).2.scopes := rfl
    rw [same]
    refine ⟨fun i name d e => ?_, fun i name d e => ?_, fun i p e => ?_⟩
    · rw [Evaluation.start_field (·.mixins) fun _ _ _ => rfl] at e
      cases e
    · rw [Evaluation.start_field (·.functions) fun _ _ _ => rfl] at e
      cases e
    · rw [Evaluation.start_field (·.selector) fun _ _ _ => rfl] at e
      cases e
  groups g n later found := by
    rw [show (Evaluation.start options groups log).2.groups = groups from rfl,
      Array.getElem?_eq_none later] at found
    cases found

/-- What has come to an end or stopped on the course of a visit. -/
theorem Contract.ends_visit {κ : Type} {c : Contract κ} {base : Nat} {k : κ}
    {x : Eval (List Node)} {fits : List Node → Prop} {w : World}
    (h : Eval.Takes (c.course base (c.Outside k)) w x (Eval.Past fits)) :
    c.Met base (x.after w) ∧ Ends (c.Outside k · (x.after w).log) (x.outcome w) fun ms =>
      fits ms ∧ c.noted (x.after w).log := by
  rcases h.ended with ⟨ms, _, e, ⟨met, noted⟩, -, -, fit⟩ | ⟨i, e, met, stopping⟩
  · rw [e]
    exact ⟨met, .ok ⟨fit, noted⟩⟩
  · rw [e]
    exact ⟨met, .error stopping⟩

/-- **A run keeps to a lawful contract.** -/
theorem Evaluation.keeps_of_run {κ : Type} {c : Contract κ} (lawful : c.Lawful)
    (locates : ∀ k n, c.visited k n → c.Locates n) {k : κ} {n : Node} (visited : c.visited k n)
    {depth : Nat} {options : Options} {groups : Groups} {log : Log} (noted : c.noted log)
    {o : Except Interrupt (List Node)} {w : World}
    (run : Eval.runFresh options groups log
      (fun scope => (Recursion.ofDepth depth).visit scope n) = (o, w)) :
    c.Met groups.size w ∧
      Ends (c.Outside k · w.log) o fun ms => (∀ m ∈ ms, c.made m) ∧ c.noted w.log := by
  obtain ⟨rfl, rfl⟩ := Prod.mk.injEq .. ▸ run
  have keeps := Recursion.keeps_ofDepth lawful locates groups.size depth
  exact Contract.ends_visit (keeps.visit 0 visited _ ⟨c.met_start options groups log, noted⟩)

end Stylesheet
