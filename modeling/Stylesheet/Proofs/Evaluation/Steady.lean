/-
# Evaluations of steady trees

An evaluation of a steady tree ends with nodes, with a diagnostic or with its depth used
up; it ends for the range of a number only where there are integers.  What carries this
through an evaluation is what is in the scopes (`Scopes.Steady`): every variable has a value
that is fair, and the body of every mixin and of every function is steady, with results in
the latter.

This is the conduct of `steadying`, where a node is visited `here` tells whether a visit may
end at a result.  Everything that a visit can do keeps to it (`lawful_steadying`), and so does
every visit of a steady node (`Evaluation.ends_of_steady`).
-/

import Stylesheet.Proofs.Evaluation.Conducted
import Stylesheet.Proofs.Node.Steady

namespace Stylesheet

/-- Whether the defaults and the body of a definition are steady. -/
def Definition.steady (ints here : Bool) (d : Definition) : Bool :=
  d.params.all (Parameter.steady ints) && Node.steadyAll ints false here d.body

/-- Every variable of a scope has a value that is fair, and its definitions are steady. -/
structure Scope.Steady (ints : Bool) (a : Scope) : Prop where
  vars : ∀ name v, a.vars.get? name = some v → v.fair ints
  mixins : ∀ name d, a.mixins.get? name = some d → d.steady ints false
  functions : ∀ name d, a.functions.get? name = some d → d.steady ints true

/-- Every scope of a store is steady. -/
def Scopes.Steady (ints : Bool) (s : Scopes) : Prop :=
  ∀ i, (s.get i).Steady ints

/-- Whether an evaluation of something steady may be interrupted so. -/
def Interrupt.steady (ints here : Bool) : Interrupt → Bool
  | failure f => f.fair ints
  | result v => here && v.fair ints
  | exhausted => true

section

variable {ints : Bool}

namespace Scopes.Steady

variable {s : Scopes} (h : s.Steady ints)

include h

/-- A change of one scope that keeps it steady. -/
theorem modify (i : ScopeId) {f : Scope → Scope} (hf : ∀ a, a.Steady ints → (f a).Steady ints) :
    (s.modify i f).Steady ints := by
  intro j
  rcases s.get_modify i f j with same | ⟨rfl, new⟩
  · exact same ▸ h j
  · exact new ▸ hf _ (h _)

/-- A new scope has no variables and no definitions. -/
theorem add (parent : Option ScopeId) (options : Option Options) (owns : Option Bool) :
    (s.add parent options owns).2.Steady ints := by
  intro j
  have vars := get_add_field (s := s) (·.vars) (fun _ _ _ => rfl) parent options owns j
  have mixins := get_add_field (s := s) (·.mixins) (fun _ _ _ => rfl) parent options owns j
  have functions := get_add_field (s := s) (·.functions) (fun _ _ _ => rfl) parent options owns j
  exact ⟨vars ▸ (h j).vars, mixins ▸ (h j).mixins, functions ▸ (h j).functions⟩

/-- A variable gets a value that is fair. -/
theorem setLocalVar (i : ScopeId) (name : String) {v : Value} (hv : v.fair ints) :
    (s.setLocalVar i name v).Steady ints :=
  h.modify i fun _ ha => { ha with vars := Table.all_set ha.vars hv }

/-- A mixin is defined that is steady and without results. -/
theorem setMixin (i : ScopeId) (name : String) {d : Definition} (hd : d.steady ints false) :
    (s.setMixin i name d).Steady ints :=
  h.modify i fun _ ha => { ha with mixins := Table.all_set ha.mixins hd }

/-- A function is defined that is steady. -/
theorem setFunction (i : ScopeId) (name : String) {d : Definition} (hd : d.steady ints true) :
    (s.setFunction i name d).Steady ints :=
  h.modify i fun _ ha => { ha with functions := Table.all_set ha.functions hd }

/-- Selectors are neither values nor definitions. -/
theorem setSelector (i : ScopeId) (selector : Option (List String)) :
    (s.setSelector i selector).Steady ints :=
  h.modify i fun _ ha => { ha with }

/-- The name of a buffer is neither a value nor a definition. -/
theorem declareBuffer (i : ScopeId) (name : String) : (s.declareBuffer i name).Steady ints := by
  unfold Scopes.declareBuffer
  split
  · exact h
  · exact h.modify i fun _ ha => { ha with }

/-- An entry of a buffer is neither a value nor a definition. -/
theorem appendBuffer (i : ScopeId) (name : String) (g : GroupId) :
    (s.appendBuffer i name g).Steady ints :=
  (h.declareBuffer i name).modify _ fun _ ha => { ha with }

/-- A variable that is found has a fair value. -/
theorem fair_of_var? {i : ScopeId} {name : String} {v : Value} (found : s.var? i name = some v) :
    v.fair ints := by
  obtain ⟨j, -, e⟩ := exists_of_find? (f := fun a => a.vars.get? (Name.normalize name)) found
  exact (h j).vars _ v e

/-- A mixin that is found is steady and without results. -/
theorem of_mixin? {i : ScopeId} {name : String} {d : Definition}
    (found : s.mixin? i name = some d) : d.steady ints false := by
  obtain ⟨j, -, e⟩ := exists_of_mixin? found
  exact (h j).mixins _ d e

/-- A function that is found is steady. -/
theorem of_function? {i : ScopeId} {name : String} {d : Definition}
    (found : s.function? i name = some d) : d.steady ints true := by
  obtain ⟨j, -, e⟩ := exists_of_function? found
  exact (h j).functions _ d e

end Scopes.Steady

/-- A value without integers is fair. -/
theorem Value.fair_of_real {ints : Bool} {v : Value} (h : v.fair false) : v.fair ints := by
  match v with
  | .null | .bool _ | .string .. => rfl
  | .number (.real x) u => rfl
  | .list vs s =>
    exact Value.fairAll_iff.2 fun w hw => fair_of_real (Value.fairAll_iff.1 h w hw)

/-- A failure that is fair is fair with a place. -/
theorem Failure.fair_locate {f : Failure} (h : f.fair ints) (span : Span) :
    (f.locate span).fair ints := by
  cases f <;> exact h

end

/-! ### Expressions -/

/-- Computations with fair values come to fair values or fail fairly. -/
theorem computes_fair (ints : Bool) :
    Computes (fun v => v.fair ints) (fun e => e.steady ints) fun f => f.fair ints where
  null := rfl
  string _ _ := rfl
  list h := Value.fairAll_iff.2 h
  items h := Value.fair_items h
  cause _ := rfl
  css h := (Value.inRange_css h).lift
  plain h := (Value.inRange_plain h).lift
  whole h := (Number.Numeric.inRange_asWhole h).lift
  operate op _ _ hv hu := Value.fair_operate hv hu op
  operateUnary op _ hv := Value.fair_operateUnary op hv
  literal h := Value.fair_of_real h
  binary h := by
    rw [Expr.steady, Bool.and_eq_true] at h
    exact h
  unary h := h
  call h := by
    simp only [Expr.steady, Bool.and_eq_true] at h
    exact ⟨Expr.steadyAll_iff.1 h.1.2, Expr.steadyKeywords_iff.1 h.2⟩
  apply {_ _ _ fn _ _} h found hvs applied := by
    simp only [Expr.steady, Builtin.steady, found, Option.all_some, Bool.and_eq_true,
      Bool.or_eq_true] at h
    refine Builtin.fair_apply fn (fun counts => ?_) hvs applied
    simpa [counts] using h.1.1
  elements h := Expr.steadyAll_iff.1 h
  holes h e he := Expr.steadyTemplate_iff.1 h (.hole e) he

namespace Evaluation

/-! ### Courses -/

section

variable (ints : Bool)

/-- The course of evaluations that keep the scopes steady and are interrupted as what is steady
may be. -/
def steadily (here : Bool) : Course fun w => w.scopes.Steady ints :=
  .leaving _ fun i w => w.scopes.Steady ints ∧ i.steady ints here

/-- **What an evaluation of something steady may do.** -/
def steadying : Conduct Bool where
  known _ w := w.scopes.Steady ints
  value v := v.fair ints
  expr e := e.steady ints
  fails f := f.fair ints
  visited here n := n.steady ints false here
  mixin := false
  function := true
  expression _ := steadily ints false
  call _ := steadily ints false
  inclusion _ := steadily ints false
  block here _ := steadily ints here
  node here _ _ := steadily ints here
  visit here _ _ := steadily ints here

end

variable {ints here : Bool} {w : World}

/-- What does not end at a result may be where results are. -/
theorem steadily_le : steadily ints false ≤ steadily ints here := by
  refine Course.leaving_mono fun i w ⟨hw, h⟩ => ⟨hw, ?_⟩
  cases i with
  | result v => cases h
  | failure f => exact h
  | exhausted => rfl

/-- What happens in a new scope keeps the scopes around it steady. -/
theorem opens_steadily (hw : w.scopes.Steady ints) (p : ScopeId) (owns : Bool)
    {d : Course fun w : World => w.scopes.Steady ints} (le : steadily ints here ≤ d) :
    Course.Opens (steadily ints here) d w p owns where
  known := hw.add (some p) none (some owns)
  goes {ns w'} hw' _ := ⟨hw', le.1 w ns w' trivial⟩
  stops {i w'} h := le.2 w i w' h

/-- A change to scopes that are steady. -/
theorem allows_steadily {s : Scopes} (steady : s.Steady ints) :
    Conduct.Allows (steadily ints here) w { w with scopes := s } :=
  ⟨steady, trivial⟩

/-- What an evaluation of something steady does to the world keeps it steady. -/
theorem moves_steadying : (steadying ints).Moves where
  expression_le_call _ := Course.le_refl _
  call_le_inclusion _ := Course.le_refl _
  block_le_inclusion _ := Course.le_refl _
  expression_le_node _ _ := steadily_le
  visit_le_block _ _ := Course.le_refl _
  clause_le_node _ _ := Course.le_refl _
  calls hw _ := opens_steadily hw _ _ (Course.le_refl _)
  includes _ _ _ hw' _ := opens_steadily hw' _ _ steadily_le
  opens _ hw := opens_steadily hw _ _ (Course.le_refl _)
  reopens _ hw := opens_steadily hw _ _ (Course.le_refl _)
  parameter name hw hv := allows_steadily (hw.setLocalVar _ name hv)
  round _ name hw hv := allows_steadily (hw.setLocalVar _ name hv)
  selects _ hw _ := allows_steadily (hw.setSelector _ _)
  assigns _ hw hv := allows_steadily (hw.setLocalVar _ _ hv)
  definesMixin {_ _ name params cs i _} steady hw := by
    obtain ⟨defaults, body⟩ := Node.steady_plain.1 steady
    have hd : Definition.steady ints false
        { what := .mixin, name, params, scope := i, body := cs } := by
      rw [Definition.steady, Bool.and_eq_true]
      exact ⟨defaults, Node.steadyAll_iff.2 body⟩
    exact allows_steadily (hw.setMixin i name hd)
  definesFunction {_ _ name params cs i _} steady hw := by
    obtain ⟨defaults, body⟩ := Node.steady_plain.1 steady
    have hd : Definition.steady ints true
        { what := .function, name, params, scope := i, body := cs } := by
      rw [Definition.steady, Bool.and_eq_true]
      exact ⟨defaults, Node.steadyAll_iff.2 body⟩
    exact allows_steadily (hw.setFunction i name hd)
  notes _ _ hw := ⟨hw, trivial⟩
  leaf _ _ _ _ _ := trivial
  around _ _ _ _ _ _ := trivial
  declares text _ _ hw' _ _ := ⟨hw'.declareBuffer _ text, trivial⟩
  captures text _ _ hw' _ _ := ⟨hw'.appendBuffer _ text _, trivial⟩
  flushes _ _ hw := ⟨hw, trivial⟩
  raises hw fair := ⟨hw, fair⟩
  exhausted hw := ⟨hw, rfl⟩
  returns steady hw hv := by
    have here := ((Bool.and_eq_true ..).mp (Node.steady_plain.1 steady).1).1
    exact ⟨hw, (Bool.and_eq_true ..).mpr ⟨here, hv⟩⟩
  catches _ := ⟨fun _ _ => trivial, id, fun h => ⟨h.1, trivial, h.2⟩, id⟩

/-- What a steady statement evaluates is steady. -/
theorem admits_steadying {head : Head} (h : head.steady ints here) :
    (steadying ints).Admits head := by
  have template {t : Template} (h : Expr.steadyTemplate ints t) : (steadying ints).Template t :=
    fun e he => Expr.steadyTemplate_iff.1 h (.hole e) he
  have required {o : Option Expr} (h : o.any (Expr.steady ints)) : (steadying ints).Required o := by
    cases o with
    | none => cases h
    | some e => exact ⟨fun _ he => Option.mem_some_iff.1 he ▸ h, nofun⟩
  cases head with
  | root | importSheet | comment => trivial
  | rule | directive | media | supports | extend | buffer | flush => exact template h
  | declaration =>
    rw [Head.steady, Bool.and_eq_true] at h
    exact ⟨template h.1, (Option.all_eq_true ..).mp h.2⟩
  | assignment | eachLoop | whileLoop | debug | warn => exact required h
  | result =>
    rw [Head.steady, Bool.and_eq_true] at h
    exact required h.2
  | forLoop =>
    simp only [Head.steady, Bool.and_eq_true] at h
    exact ⟨required h.1.2, required h.2, fun _ _ => h.1.1⟩
  | mixin | function => exact Parameter.steadyAll_iff.1 h
  | inclusion =>
    rw [Head.steady, Bool.and_eq_true] at h
    exact ⟨Expr.steadyAll_iff.1 h.1, Expr.steadyKeywords_iff.1 h.2⟩

/-- A definition that is steady has steady defaults, and a steady body. -/
theorem steady_definition {d : Definition} (h : d.steady ints here) :
    (steadying ints).Defaults d.params ∧ ∀ n ∈ d.body, n.steady ints false here := by
  rw [Definition.steady, Bool.and_eq_true] at h
  exact ⟨Parameter.steadyAll_iff.1 h.1, Node.steadyAll_iff.1 h.2⟩

/-- **What a visit can do with something steady keeps to it.** -/
theorem lawful_steadying (ints : Bool) : (steadying ints).Lawful where
  computes := computes_fair ints
  visits :=
    { heads := fun steady => admits_steadying (Node.steady_plain.1 steady).1
      inside := fun {here _ head _} steady control => by
        have same : head.within false here = here := by
          cases head with
          | mixin | function => cases control
          | _ => rfl
        exact same ▸ (Node.steady_plain.1 steady).2
      tests := fun steady => (Node.steady_cond.1 steady).1.1
      clause := fun steady => ⟨(Node.steady_cond.1 steady).1.2, (Node.steady_cond.1 steady).2⟩ }
  finds :=
    { values := fun hw found => hw.fair_of_var? found
      selectors := fun _ _ _ _ => trivial
      functions := fun hw found => steady_definition (hw.of_function? found)
      mixins := fun hw found => steady_definition (hw.of_mixin? found)
      resolve := fun _ _ => trivial }
  makes := Conduct.makes_of_all fun _ _ _ => trivial
  moves := moves_steadying

/-- A failure that leaves a node gets its place, which is fair. -/
theorem leaves_steadying (ints : Bool) : (steadying ints).Leaves :=
  fun _ _ n _ => ⟨id, fun h => ⟨h.1, Failure.fair_locate h.2 n.info.span⟩, id, id⟩

/-- **Visits of what is steady end as they may**, however deep they go. -/
theorem ends_of_steady (depth : Nat) {i : ScopeId} {n : Node} (steady : n.steady ints false here)
    (hw : w.scopes.Steady ints) :
    Ends (fun i => i.steady ints here) (((Recursion.ofDepth depth).visit i n).outcome w)
      fun _ => True := by
  have hr := Recursion.conducted_ofDepth (lawful_steadying ints) (leaves_steadying ints) depth
  rcases (hr.visit i steady w hw).ended with ⟨_, _, e, -⟩ | ⟨_, e, -, h⟩
  · rw [e]
    exact .ok trivial
  · rw [e]
    exact .error h

end Evaluation
end Stylesheet
