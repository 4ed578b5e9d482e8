/-
# Evaluations expand nodes

What an evaluator comes to an end with is an expansion of the node it was given, with the
bodies of the mixins that are defined on the way.  The store has no other mixins than those
(`Scopes.Defines`): an evaluation starts with none, and puts none there but the ones that it
comes past.  Everything that a visit can do keeps to that (`lawful_expanding`), and so what a
run comes to is an expansion of its document (`Evaluation.expands_of_run`).
-/

import Stylesheet.Proofs.Evaluation.Document
import Stylesheet.Proofs.Node.Expansion

namespace Stylesheet

/-- Every mixin of a store has one of the `bodies`, and so has every mixin inside a mixin or
a function. -/
structure Scopes.Defines (bodies : List Node → Prop) (s : Scopes) : Prop where
  mixins : ∀ i name d, (s.get i).mixins.get? name = some d →
    bodies d.body ∧ ∀ b ∈ Node.mixinBodiesAll d.body, bodies b
  functions : ∀ i name d, (s.get i).functions.get? name = some d →
    ∀ b ∈ Node.mixinBodiesAll d.body, bodies b

namespace Scopes.Defines

variable {bodies : List Node → Prop} {s s' : Scopes}

/-- A store with the same definitions. -/
theorem of_same (h : s.Defines bodies) (mixins : ∀ j, (s'.get j).mixins = (s.get j).mixins)
    (functions : ∀ j, (s'.get j).functions = (s.get j).functions) : s'.Defines bodies where
  mixins i name d e := h.mixins i name d (by rwa [mixins] at e)
  functions i name d e := h.functions i name d (by rwa [functions] at e)

/-- A change of one scope that keeps its definitions. -/
theorem modify (h : s.Defines bodies) (i : ScopeId) {f : Scope → Scope}
    (mixins : ∀ a, (f a).mixins = a.mixins) (functions : ∀ a, (f a).functions = a.functions) :
    (s.modify i f).Defines bodies :=
  h.of_same (get_modify_field (·.mixins) (mixins _))
    (get_modify_field (·.functions) (functions _))

/-- A new scope has no definitions. -/
theorem add (h : s.Defines bodies) (parent : Option ScopeId) (options : Option Options)
    (owns : Option Bool) : (s.add parent options owns).2.Defines bodies :=
  h.of_same (get_add_field (·.mixins) (fun _ _ _ => rfl) _ _ _)
    (get_add_field (·.functions) (fun _ _ _ => rfl) _ _ _)

/-- The name of a buffer is no definition. -/
theorem declareBuffer (h : s.Defines bodies) (i : ScopeId) (name : String) :
    (s.declareBuffer i name).Defines bodies := by
  unfold Scopes.declareBuffer
  split
  · exact h
  · exact h.modify i (fun _ => rfl) fun _ => rfl

/-- A mixin is defined with one of the bodies. -/
theorem setMixin (h : s.Defines bodies) (i : ScopeId) (name : String) {d : Definition}
    (known : bodies d.body ∧ ∀ b ∈ Node.mixinBodiesAll d.body, bodies b) :
    (s.setMixin i name d).Defines bodies where
  mixins := all_setMixin h.mixins i name known
  functions j x e he := h.functions j x e (by rwa [functions_setMixin] at he)

/-- A function is defined that has mixins with these bodies only. -/
theorem setFunction (h : s.Defines bodies) (i : ScopeId) (name : String) {d : Definition}
    (known : ∀ b ∈ Node.mixinBodiesAll d.body, bodies b) :
    (s.setFunction i name d).Defines bodies where
  mixins j x e he := h.mixins j x e (by rwa [mixins_setFunction] at he)
  functions := all_setFunction h.functions i name known

/-- A mixin that is found has one of the bodies. -/
theorem of_mixin? (h : s.Defines bodies) {i : ScopeId} {name : String} {d : Definition}
    (found : s.mixin? i name = some d) :
    bodies d.body ∧ ∀ b ∈ Node.mixinBodiesAll d.body, bodies b := by
  obtain ⟨j, -, e⟩ := exists_of_mixin? found
  exact h.mixins j _ d e

/-- The mixins inside a function that is found have these bodies. -/
theorem of_function? (h : s.Defines bodies) {i : ScopeId} {name : String} {d : Definition}
    (found : s.function? i name = some d) : ∀ b ∈ Node.mixinBodiesAll d.body, bodies b := by
  obtain ⟨j, -, e⟩ := exists_of_function? found
  exact h.functions j _ d e

end Scopes.Defines

namespace Evaluation

section

variable (bodies : List Node → Prop)

/-- The course of evaluations that define no mixin with another body. -/
def defining : Course fun w => w.scopes.Defines bodies :=
  .leaving _ fun _ w => w.scopes.Defines bodies

/-- **What nodes may become**, with these bodies of mixins. -/
def expanding : Conduct Unit where
  known _ w := w.scopes.Defines bodies
  visited _ n := ∀ b ∈ n.mixinBodies, bodies b
  mixin := ()
  function := ()
  gives _ n ms := Node.Expands bodies [n] ms
  expression _ := defining bodies
  call _ := defining bodies
  inclusion _ := defining bodies
  block _ _ := defining bodies
  node _ _ _ := defining bodies
  visit _ _ _ := defining bodies

end

variable {bodies : List Node → Prop} {w : World}

/-- What some nodes may become, one after the other. -/
theorem expands_of_givesAll {ns ms : List Node} (h : (expanding bodies).GivesAll () ns ms) :
    Node.Expands bodies ns ms := by
  obtain ⟨mss, each, rfl⟩ := h
  induction each with
  | nil => exact .nil
  | cons first _ rest =>
    rw [List.flatten_cons]
    exact first.append rest

/-- A new scope defines no mixin. -/
theorem opens_defining (hw : w.scopes.Defines bodies) (p : ScopeId) (owns : Bool) :
    Course.Opens (defining bodies) (defining bodies) w p owns where
  known := hw.add (some p) none (some owns)
  goes hw' _ := ⟨hw', trivial⟩
  stops := id

/-- A change of one scope that keeps its definitions. -/
theorem allows_modify (hw : w.scopes.Defines bodies) (i : ScopeId) {f : Scope → Scope}
    (mixins : ∀ a, (f a).mixins = a.mixins) (functions : ∀ a, (f a).functions = a.functions) :
    Conduct.Allows (defining bodies) w { w with scopes := w.scopes.modify i f } :=
  ⟨hw.modify i mixins functions, trivial⟩

/-- The bodies inside one of some nodes are bodies inside all of them. -/
theorem bodies_of_mem {ns : List Node} (h : ∀ b ∈ Node.mixinBodiesAll ns, bodies b) {n : Node}
    (hn : n ∈ ns) : ∀ b ∈ n.mixinBodies, bodies b :=
  fun b hb => h b (Node.mem_mixinBodiesAll.2 ⟨n, hn, hb⟩)

/-- No step of an evaluation defines a mixin with another body. -/
theorem moves_expanding : (expanding bodies).Moves where
  expression_le_call _ := Course.le_refl _
  call_le_inclusion _ := Course.le_refl _
  block_le_inclusion _ := Course.le_refl _
  expression_le_node _ _ := Course.le_refl _
  visit_le_block _ _ := Course.le_refl _
  clause_le_node _ _ := Course.le_refl _
  calls hw _ := opens_defining hw _ _
  includes _ _ _ hw' _ := opens_defining hw' _ _
  opens _ hw := opens_defining hw _ _
  reopens _ hw := opens_defining hw _ _
  parameter _ hw _ := allows_modify hw _ (fun _ => rfl) fun _ => rfl
  round _ _ hw _ := allows_modify hw _ (fun _ => rfl) fun _ => rfl
  selects _ hw _ := allows_modify hw _ (fun _ => rfl) fun _ => rfl
  assigns _ hw _ := allows_modify hw _ (fun _ => rfl) fun _ => rfl
  definesMixin {_ info name params cs i _} known hw :=
    ⟨hw.setMixin i name ⟨known cs List.mem_cons_self, fun b hb =>
      known b (Node.mixinBodiesAll_subset info (.mixin name params) cs hb)⟩, trivial⟩
  definesFunction {_ info name params cs i _} known hw :=
    ⟨hw.setFunction i name fun b hb =>
      known b (Node.mixinBodiesAll_subset info (.function name params) cs hb), trivial⟩
  notes _ _ hw := ⟨hw, trivial⟩
  leaf _ _ _ _ _ := trivial
  around _ _ _ _ _ _ := trivial
  declares text _ _ hw' _ _ := ⟨hw'.declareBuffer _ text, trivial⟩
  captures text _ _ hw' _ _ :=
    ⟨(hw'.declareBuffer _ text).modify _ (fun _ => rfl) fun _ => rfl, trivial⟩
  flushes _ _ hw := ⟨hw, trivial⟩
  raises hw _ := hw
  exhausted hw := hw
  returns _ hw _ := hw
  catches _ := ⟨fun _ _ => trivial, id, fun hw => ⟨hw, trivial, trivial⟩, id⟩

/-- What a node becomes is one of its expansions. -/
theorem makes_expanding : (expanding bodies).Makes where
  gone _ := .gone _
  leaf _ resolves leaf := .leaf resolves leaf
  block _ resolves entered _ _ inner := .block resolves entered (expands_of_givesAll inner)
  again _ control before round := before.again control (expands_of_givesAll round)
  clause _ inner := .clause (expands_of_givesAll inner)
  otherwise _ inner := .otherwise inner
  inclusion _ hw found inner := .inclusion (hw.of_mixin? found).1 (expands_of_givesAll inner)

/-- **What a visit can do expands nodes.** -/
theorem lawful_expanding (bodies : List Node → Prop) : (expanding bodies).Lawful where
  computes := computes_raised
  visits :=
    { heads := fun _ => (expanding bodies).admits_of_all (fun _ => trivial) (fun _ => trivial)
        .missing _
      inside := fun {_ info head cs} known _ _ hn => bodies_of_mem
        (fun b hb => known b (Node.mixinBodiesAll_subset info head cs hb)) hn
      tests := fun _ _ _ => trivial
      clause := fun known => by
        refine ⟨fun _ hn => bodies_of_mem (fun b hb => known b (List.mem_append_left _ hb)) hn,
          fun n hn b hb => known b (List.mem_append_right _ ?_)⟩
        cases hn
        exact hb }
  finds :=
    { values := fun _ _ => trivial
      selectors := fun _ _ _ _ => trivial
      functions := fun hw found => ⟨fun _ _ _ _ => trivial,
        fun _ hn => bodies_of_mem (hw.of_function? found) hn⟩
      mixins := fun hw found => ⟨fun _ _ _ _ => trivial,
        fun _ hn => bodies_of_mem (hw.of_mixin? found).2 hn⟩
      resolve := fun _ _ => trivial }
  makes := makes_expanding
  moves := moves_expanding

/-- **A run expands a document**, with the bodies of the mixins in it. -/
theorem expands_of_run (depth : Nat) (options : Options) (log : Log) {info : Info}
    {cs nodes : List Node} {w : World}
    (run : Eval.runFresh options #[] log
      (fun scope => (Recursion.ofDepth depth).visit scope (.plain info .root cs)) =
        (.ok nodes, w)) :
    ∃ children, nodes = [.plain info.apart .root children] ∧
      Node.Expands (· ∈ Node.mixinBodiesAll cs) cs children := by
  obtain ⟨outcome, -⟩ := Prod.mk.injEq .. ▸ run
  have empty : (start options #[] log).2.scopes.Defines (· ∈ Node.mixinBodiesAll cs) :=
    { mixins := fun i name d e => by
        rw [start_field (·.mixins) fun _ _ _ => rfl] at e
        cases e
      functions := fun i name d e => by
        rw [start_field (·.functions) fun _ _ _ => rfl] at e
        cases e }
  cases depth with
  | zero => cases outcome
  | succ n =>
    obtain ⟨children, content, rfl⟩ := outcome_root.1 outcome
    have lawful := lawful_expanding (· ∈ Node.mixinBodiesAll cs)
    have hr := Recursion.conducted_ofDepth lawful (fun _ _ _ _ => ⟨id, id, id, id⟩) n
    have body := takes_visitBody (k := ()) lawful hr (fun _ hn => bodies_of_mem (fun _ => id) hn)
      (opens_defining empty (start options #[] log).1 false)
    rcases body.ended with ⟨_, _, e, -, -, -, given⟩ | ⟨_, e, -⟩
    · cases content.symm.trans e
      exact ⟨children, rfl, expands_of_givesAll given⟩
    · cases content.symm.trans e

end Evaluation
end Stylesheet
