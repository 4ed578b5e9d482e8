/-
# What an evaluation leaves alone

An evaluation in a scope only changes the scope and the scopes around it, and only in
the way that `Scopes.Frame` allows.  An expression gains nothing, a node at most the
name that it defines and new entries of buffers (`Node.gains`); every body is evaluated
in a scope of its own, which takes whatever else there is to gain.

These are the courses of `framing`, a conduct to which everything that a visit can do keeps
(`lawful_framing`).  `Eval.Within i g` relates the worlds before and after an evaluation that
follows the course of the scope `i`; evaluators are framed, however deep they go
(`Recursion.framed_ofDepth`).
-/

import Stylesheet.Proofs.Evaluation.Conducted
import Stylesheet.Proofs.Scope.Frame

namespace Stylesheet

/-- A function that is found from a scope without functions closes over one around it. -/
theorem Scopes.WellFormed.notMem_chain_of_function? {s : Scopes} (hs : s.WellFormed) {b : Nat}
    (none : (s.get b).functions = []) {name : String} {d : Definition}
    (found : s.function? b name = some d) : b ∉ s.chain d.scope := by
  have mem := hs.scope_mem_of_function? found
  have above : d.scope ∈ (s.get b).ancestors := by
    refine (List.mem_cons.1 mem).resolve_left fun here => ?_
    obtain ⟨j, hj, e⟩ := exists_of_function? found
    rw [← hs.functions j _ d e, here, none] at e
    cases e
  have less := (hs.nested.lt_of_mem_ancestors above).1
  intro inside
  rcases List.mem_cons.1 inside with rfl | inside
  · exact absurd less (Nat.lt_irrefl _)
  · exact absurd (hs.nested.lt_of_mem_ancestors inside).1 (Nat.lt_asymm less)

/-- What the scope that a node with this head is evaluated in may gain. -/
def Head.gains : Head → Gains
  | .assignment name _ _ => { var := (· = Name.normalize name), buffer := True }
  | .mixin name _ => { mixin := (· = Name.normalize name), buffer := True }
  | .function name _ => { function := (· = Name.normalize name), buffer := True }
  | _ => .buffers

/-- What the scope that a node is evaluated in may gain. -/
def Node.gains : Node → Gains
  | .plain _ h _ => h.gains
  | .cond _ _ _ none => .buffers
  | .cond _ _ _ (some clause) => clause.gains

/-- Whatever is evaluated, entries of buffers may be added. -/
theorem Head.gains_buffer (h : Head) : h.gains.buffer := by
  cases h <;> trivial

/-- Whatever node is visited, entries of buffers may be added. -/
theorem Node.gains_buffer (n : Node) : n.gains.buffer := by
  fun_induction Node.gains n with
  | case1 _ h _ => exact h.gains_buffer
  | case2 => trivial
  | case3 _ _ _ _ ih => exact ih

/-! ### Courses -/

/-- A store that operations make, in which there is a certain scope. -/
def World.Holds (i : ScopeId) (w : World) : Prop :=
  w.scopes.Reachable ∧ (i : Nat) < w.scopes.all.size

/-- A new scope is there. -/
theorem World.Holds.newScope {w : World} {p : ScopeId} (hw : w.Holds p) (owns : Bool) :
    ((Eval.newScope p owns).after w).Holds w.scopes.all.size :=
  ⟨hw.1.add none (some owns) fun _ e => Option.some.inj e ▸ hw.2, by simp⟩

namespace Course

/-- The course of an evaluation in a scope that may gain something, wherever it stops. -/
def framed (i : ScopeId) (g : Gains) : Course (World.Holds i) where
  goes w _ w' := w.scopes.Frame i g w'.scopes
  stops w _ w' := w'.Holds i ∧ w.scopes.Frame i g w'.scopes
  refl _ := .refl ..
  trans hw f _ f' := f.trans f' hw.1.wellFormed hw.2
  stop hw f _ h := ⟨h.1, f.trans h.2 hw.1.wellFormed hw.2⟩

/-- An evaluation leaves a scope without functions as it is. -/
def Spares (i : ScopeId) (s s' : Scopes) : Prop :=
  (s.get i).functions = [] → s'.get i = s.get i

/-- What is left as it is twice is left as it is. -/
theorem Spares.trans {i : ScopeId} {s s' s'' : Scopes} (h : Spares i s s') (k : Spares i s' s'') :
    Spares i s s'' :=
  fun none => (k (h none ▸ none)).trans (h none)

/-- The course of an expression, which gains nothing and does not touch the scope it is
evaluated in unless there are functions in it. -/
def still (i : ScopeId) : Course (World.Holds i) where
  goes w _ w' := w.scopes.Frame i .none w'.scopes ∧ Spares i w.scopes w'.scopes
  stops w _ w' := w'.Holds i ∧ w.scopes.Frame i .none w'.scopes ∧ Spares i w.scopes w'.scopes
  refl _ := ⟨.refl .., fun _ => rfl⟩
  trans hw h _ h' := ⟨h.1.trans h'.1 hw.1.wellFormed hw.2, h.2.trans h'.2⟩
  stop hw h _ h' := ⟨h'.1, h.1.trans h'.2.1 hw.1.wellFormed hw.2, h.2.trans h'.2.2⟩

variable {i : ScopeId} {g h : Gains} {w : World}

/-- What gains little gains no more than what may gain more. -/
theorem framed_mono (l : g ≤ h) : framed i g ≤ framed i h :=
  ⟨fun _ _ _ f => f.mono l, fun _ _ _ ⟨hw, f⟩ => ⟨hw, f.mono l⟩⟩

/-- An expression is framed, whatever may be gained. -/
theorem still_le_framed : still i ≤ framed i g :=
  ⟨fun _ _ _ f => f.1.mono (Gains.none_le g), fun _ _ _ ⟨hw, f⟩ => ⟨hw, f.1.mono (Gains.none_le g)⟩⟩

/-- What happens in a new scope is framed by its parent, which gains nothing that the new
scope can take. -/
theorem opens_framed {p : ScopeId} {owns : Bool} (hw : w.Holds p) (hg : owns = true ∨ g.buffer) :
    Opens (framed w.scopes.all.size .any) (framed p g) w p owns where
  known := hw.newScope owns
  goes hw' f := by
    have inside := f.inside hw.1.wellFormed hw.2 hg
    exact ⟨⟨hw'.1, Nat.lt_of_lt_of_le hw.2 inside.grows⟩, inside⟩
  stops h := by
    have inside := h.2.inside hw.1.wellFormed hw.2 hg
    exact ⟨⟨h.1.1, Nat.lt_of_lt_of_le hw.2 inside.grows⟩, inside⟩

/-- A function is called around the scope of the call, so that scope is left as it is. -/
theorem opens_function {name : String} {d : Definition} (hw : w.Holds i)
    (found : w.scopes.function? i name = some d) :
    Opens (framed w.scopes.all.size .any) (still i) w d.scope true := by
  have wf := hw.1.wellFormed
  have opens : Opens (framed w.scopes.all.size .any) (framed d.scope .none) w d.scope true :=
    opens_framed ⟨hw.1, wf.scope_lt_of_function? found⟩ (.inl rfl)
  have sub := wf.chain_subset (wf.scope_mem_of_function? found)
  refine opens.imp (fun hw' f => ⟨⟨hw'.1, Nat.lt_of_lt_of_le hw.2 f.grows⟩, f.widen sub, ?_⟩)
    fun h => ⟨⟨h.1.1, Nat.lt_of_lt_of_le hw.2 h.2.grows⟩, h.2.widen sub, ?_⟩
  · exact fun none => f.apart i hw.2 (wf.notMem_chain_of_function? none found)
  · exact fun none => h.2.apart i hw.2 (wf.notMem_chain_of_function? none found)

/-- A mixin is included around the scope of the inclusion, also after the arguments have been
evaluated there. -/
theorem opens_mixin {name : String} {d : Definition} {w' : World} (hw : w.Holds i)
    (found : w.scopes.mixin? i name = some d) (hw' : w'.Holds i)
    (going : w.scopes.Frame i .none w'.scopes) :
    Opens (framed w'.scopes.all.size .any) (framed i g) w' d.scope true := by
  have mem := hw.1.wellFormed.scope_mem_of_mixin? found
  rw [← going.chain_eq hw.2] at mem
  have opens : Opens (framed w'.scopes.all.size .any) (framed d.scope .none) w' d.scope true :=
    opens_framed ⟨hw'.1, hw'.1.wellFormed.lt_size_of_mem_chain hw'.2 mem⟩ (.inl rfl)
  have sub := hw'.1.wellFormed.chain_subset mem
  exact opens.imp (fun h f => ⟨⟨h.1, Nat.lt_of_lt_of_le hw'.2 f.grows⟩, f.widen sub⟩)
    fun h => ⟨⟨h.1.1, Nat.lt_of_lt_of_le hw'.2 h.2.grows⟩, h.2.widen sub⟩

end Course

namespace Evaluation

open Course

/-- A scope in which a name is kept is in the chain, and has the name in reach or owns the
new entry. -/
theorem bufferScope_spec (s : Scopes) (i : ScopeId) (name : String) :
    bufferScope s i name ∈ s.chain i ∧
      (bufferScope s i name = s.owner i ∨
        (s.bufferHolder? (bufferScope s i name) name).isSome) := by
  unfold bufferScope
  split
  · rename_i l found
    obtain ⟨j, hj, e⟩ := s.exists_of_find? (f := fun a => a.buffers.get? name) found
    exact ⟨s.mem_chain_self i, .inr (Scopes.bufferHolder?_isSome_of_get? hj (by rw [e]; rfl))⟩
  · exact ⟨s.owner_mem_chain i, .inl rfl⟩

/-- **What an evaluation may do to the scopes.** -/
def framing : Conduct Unit where
  known i w := w.Holds i
  visited _ _ := True
  mixin := ()
  function := ()
  expression := still
  call i := framed i .any
  inclusion i := framed i .any
  block _ i := framed i .any
  node _ n i := framed i n.gains
  visit _ n i := framed i n.gains

section

variable {i : ScopeId} {g : Gains} {w w' : World}

/-- A change of the store inside its frame. -/
theorem allows_framed (hw : w.Holds i) {s : Scopes} (reachable : s.Reachable)
    (frame : w.scopes.Frame i g s) : Conduct.Allows (framed i g) w { w with scopes := s } :=
  ⟨⟨reachable, Nat.lt_of_lt_of_le hw.2 frame.grows⟩, frame⟩

/-- A change that comes after others. -/
theorem framed_after (hw : w.Holds i) (hw' : w'.Holds i) (f : w.scopes.Frame i g w'.scopes)
    {s : Scopes} (reachable : s.Reachable) (frame : w'.scopes.Frame i g s) :
    (s.Reachable ∧ (i : Nat) < s.all.size) ∧ w.scopes.Frame i g s :=
  ⟨⟨reachable, Nat.lt_of_lt_of_le hw'.2 frame.grows⟩, f.trans frame hw.1.wellFormed hw.2⟩

/-- A name is declared in a scope in which it is kept. -/
theorem framed_declared (hw : w.Holds i) (hw' : w'.Holds i) (f : w.scopes.Frame i g w'.scopes)
    (text : String) (hg : g.buffer) :
    let s := w'.scopes.declareBuffer (bufferScope w'.scopes i text) text
    (s.Reachable ∧ (i : Nat) < s.all.size) ∧ w.scopes.Frame i g s :=
  framed_after hw hw' f (hw'.1.declareBuffer _ _)
    (Scopes.frame_declareBuffer (bufferScope_spec w'.scopes i text).2 hg)

/-- A group is put into an entry in a scope in which its name is kept. -/
theorem framed_captured (hw : w.Holds i) (hw' : w'.Holds i) (f : w.scopes.Frame i g w'.scopes)
    (text : String) (group : GroupId) (hg : g.buffer) :
    let s := w'.scopes.appendBuffer (bufferScope w'.scopes i text) text group
    (s.Reachable ∧ (i : Nat) < s.all.size) ∧ w.scopes.Frame i g s := by
  obtain ⟨inside, kept⟩ := bufferScope_spec w'.scopes i text
  exact framed_after hw hw' f (hw'.1.appendBuffer _ _ _)
    (Scopes.frame_appendBuffer hw'.1.wellFormed hw'.2 kept inside group hg)

end

/-- What an evaluation does to the world is framed. -/
theorem moves_framing : framing.Moves where
  expression_le_call _ := still_le_framed
  call_le_inclusion _ := le_refl _
  block_le_inclusion _ := le_refl _
  expression_le_node _ _ := still_le_framed
  visit_le_block _ _ := framed_mono (Gains.le_any _)
  clause_le_node _ _ := le_refl _
  calls hw found := opens_function hw found
  includes _ hw found hw' going := opens_mixin hw found hw' going.1
  opens _ hw := opens_framed hw (.inr (Node.gains_buffer _))
  reopens _ hw := opens_framed hw (.inr trivial)
  parameter name hw _ :=
    allows_framed hw (.setLocalVar _ name _ hw.1) (Scopes.frame_setLocalVar _ _ name _ trivial)
  round _ name hw _ :=
    allows_framed hw (.setLocalVar _ name _ hw.1) (Scopes.frame_setLocalVar _ _ name _ trivial)
  selects _ hw _ :=
    allows_framed hw (.setSelector _ _ hw.1) (Scopes.frame_setSelector _ _ _ trivial)
  assigns _ hw _ := allows_framed hw (.setLocalVar _ _ _ hw.1) (Scopes.frame_setVar _ _ _ _ rfl)
  definesMixin {_ _ name params cs i _} _ hw :=
    allows_framed hw
      (.setMixin (d := { what := .mixin, name, params, scope := i, body := cs }) name hw.1)
      (Scopes.frame_setMixin _ _ _ _ rfl)
  definesFunction {_ _ name params cs i _} _ hw :=
    allows_framed hw
      (.setFunction (d := { what := .function, name, params, scope := i, body := cs }) name hw.1)
      (Scopes.frame_setFunction _ _ _ _ rfl)
  notes _ _ hw := ⟨hw, .refl ..⟩
  leaf _ _ _ _ _ := .refl ..
  around _ _ _ _ _ f := f
  declares text _ hw hw' f _ := framed_declared hw hw' f text trivial
  captures text _ hw hw' f _ := framed_captured hw hw' f text _ trivial
  flushes _ _ hw := ⟨hw, .refl ..⟩
  raises hw _ := ⟨hw, .refl .., fun _ => rfl⟩
  exhausted hw := ⟨hw, .refl .., fun _ => rfl⟩
  returns _ hw _ := ⟨hw, .refl ..⟩
  catches _ := ⟨fun _ f => f, id, fun h => ⟨h.1, h.2, trivial⟩, id⟩

/-- **What a visit can do is framed.**. -/
theorem lawful_framing : framing.Lawful where
  computes := computes_raised
  visits := Conduct.visits_of_all (fun _ => trivial) (fun _ => trivial) .missing fun _ _ => trivial
  finds := Conduct.finds_of_all (fun _ => trivial) (fun _ => trivial) (fun _ => trivial)
    fun _ _ => trivial
  makes := Conduct.makes_of_all fun _ _ _ => trivial
  moves := moves_framing

end Evaluation

/-! ### Evaluations that are framed -/

namespace Eval

variable {α : Type} {i : ScopeId} {g : Gains} {x : Eval α} {fits : α → List Node → Prop}

/-- In a store that operations make, the second world is one that an evaluation in the
scope `i` may leave behind in the first; its store is one that operations make, too. -/
def Within (i : ScopeId) (g : Gains) (w w' : World) : Prop :=
  w.scopes.Reachable → (i : Nat) < w.scopes.all.size →
    w'.scopes.Reachable ∧ w.scopes.Frame i g w'.scopes

instance (i : ScopeId) (g : Gains) : IsPreorder World (Within i g) where
  refl w hw _ := ⟨hw, .refl i g w.scopes⟩
  trans w w' w'' h k hw hi := by
    obtain ⟨hw', f⟩ := h hw hi
    obtain ⟨hw'', f'⟩ := k hw' (Nat.lt_of_lt_of_le hi f.grows)
    exact ⟨hw'', f.trans f' hw.wellFormed hi⟩

/-- A change of the scopes is framed like the change that it is. -/
theorem within_modifyScopes {f : Scopes → Scopes}
    (reaches : ∀ s : Scopes, s.Reachable → (f s).Reachable)
    (frame : ∀ s : Scopes, s.WellFormed → (i : Nat) < s.all.size → s.Frame i g (f s)) :
    Steps (Within i g) (modifyScopes f) :=
  fun w hw hi => ⟨reaches w.scopes hw, frame w.scopes hw.wellFormed hi⟩

/-- What follows the course of a scope is framed, whether it comes to an end or not. -/
theorem within_of_takes {w : World} (h : Takes (.framed i g) w x fits) :
    (x.after w).scopes.Reachable ∧ w.scopes.Frame i g (x.after w).scopes := by
  rcases h.ended with ⟨_, _, _, hw, f, _⟩ | ⟨_, _, hw, f⟩
  · exact ⟨hw.1, f⟩
  · exact ⟨hw.1, f⟩

end Eval

/-- Evaluators whose evaluations are framed. -/
def Recursion.Framed (r : Recursion) : Prop :=
  r.Conducted Evaluation.framing

/-- **Evaluations are framed, however deep they go.** -/
theorem Recursion.framed_ofDepth (n : Nat) : (ofDepth n).Framed :=
  conducted_ofDepth Evaluation.lawful_framing (fun _ _ _ _ => ⟨id, id, id, id⟩) n

namespace Evaluation

open Eval

variable {r : Recursion} (hr : r.Framed)

include hr

/-- An expression gains nothing. -/
theorem within_eval (i : ScopeId) (e : Expr) : Steps (Within i .none) (r.eval i e) :=
  fun w hw hi => within_of_takes
    ((hr.eval i (e := e) trivial w ⟨hw, hi⟩).weaken Course.still_le_framed)

/-- A visit gains at most the name that its node defines, and entries of buffers. -/
theorem within_visit (i : ScopeId) (n : Node) : Steps (Within i n.gains) (r.visit i n) :=
  fun w hw hi => within_of_takes (hr.visit (k := ()) i trivial w ⟨hw, hi⟩)

/-- A body gains nothing but entries of buffers, since it is visited in a block. -/
theorem within_visitBody (i : ScopeId) (body : List Node) {g : Gains} (hg : g.buffer) :
    Steps (Within i g) (visitBody r i body) := by
  intro w hw hi
  have opens : Course.Opens (framing.block () w.scopes.all.size) (.framed i g) w i false :=
    Course.opens_framed ⟨hw, hi⟩ (.inr hg)
  exact within_of_takes (takes_visitBody lawful_framing hr (fun _ _ => trivial) opens)

/-- An inclusion is framed by the scope that the mixin closes over. -/
theorem within_includeMixin (site : ScopeId) (d : Definition) (args : List Value)
    (keywords : List (String × Value)) :
    Steps (Within d.scope .none) (includeMixin r site d args keywords) := by
  intro w hw hi
  have opens : Course.Opens (framing.inclusion w.scopes.all.size) (.framed d.scope .none) w
      d.scope true := Course.opens_framed ⟨hw, hi⟩ (.inl rfl)
  exact within_of_takes (takes_includeMixin lawful_framing hr opens (fun _ _ _ _ => trivial)
    (fun _ _ => trivial) (fun _ _ => trivial) (fun _ _ => trivial) site)

/-- A call is framed by the scope that the function closes over. -/
theorem within_invoke (d : Definition) (args : List Value) (keywords : List (String × Value)) :
    Steps (Within d.scope .none) (invoke r d args keywords) := by
  intro w hw hi
  have opens : Course.Opens (framing.call w.scopes.all.size) (.framed d.scope .none) w
      d.scope true := Course.opens_framed ⟨hw, hi⟩ (.inl rfl)
  exact within_of_takes (takes_invoke lawful_framing hr opens (fun _ _ _ _ => trivial)
    (fun _ _ => trivial) (fun _ _ => trivial) (fun _ _ => trivial))

/-- **What is evaluated in a scope without functions leaves it as it is**, its variables and
their values among it. -/
theorem spares_eval {w : World} {b : ScopeId} (hw : w.Holds b) (e : Expr) :
    ((r.eval b e).after w).Holds b ∧ w.scopes.Frame b .none ((r.eval b e).after w).scopes ∧
      Course.Spares b w.scopes ((r.eval b e).after w).scopes := by
  have follows : Takes (.still b) w (r.eval b e) _ := hr.eval b trivial w hw
  rcases follows.ended with ⟨_, _, _, known, going, _⟩ | ⟨_, _, known, going⟩
  · exact ⟨known, going⟩
  · exact ⟨known, going⟩

end Evaluation
end Stylesheet
