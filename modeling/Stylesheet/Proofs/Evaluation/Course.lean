/-
# Courses of evaluations

What an evaluation does to the world and how it may be interrupted is its course.  A `Course`
tells which worlds may come after which, with the nodes that are come past on the way, and
which interrupts may end the evaluation where; an evaluation may always stand still, and what
follows goes on from where the first has come to.

`Eval.Follows c x fits` says that `x` follows the course `c` from every world that is known:
it comes to an end in such a world, with an outcome that fits the nodes it has come past, or
stops as the course allows.  The rules here say so of whatever is put together from parts.  In
`Eval.Takes` the world is given, for what has to be told which one it is.
-/

import Mathlib.Data.List.Forall2
import Stylesheet.Proofs.Evaluation.Run
import Stylesheet.Proofs.Value.Range

namespace Stylesheet

/-- A way to go through the worlds that are `known`, and to stop on it. -/
structure Course (known : World → Prop) where
  /-- One world may come to another, past some nodes. -/
  goes : World → List Node → World → Prop
  /-- What starts in one world may be interrupted in another. -/
  stops : World → Interrupt → World → Prop
  refl : ∀ {w}, known w → goes w [] w
  trans : ∀ {w w' w'' ns ms}, known w → goes w ns w' → known w' → goes w' ms w'' →
    goes w (ns ++ ms) w''
  stop : ∀ {w w' w'' ns i}, known w → goes w ns w' → known w' → stops w' i w'' → stops w i w''

namespace Course

variable {known : World → Prop}

/-- Whatever follows the first course follows the second one. -/
instance : LE (Course known) where
  le c d := (∀ w ns w', c.goes w ns w' → d.goes w ns w') ∧
    ∀ w i w', c.stops w i w' → d.stops w i w'

/-- Every course is part of itself. -/
theorem le_refl (c : Course known) : c ≤ c :=
  ⟨fun _ _ _ => id, fun _ _ _ => id⟩

/-- A course that looks at nothing but the world that an evaluation leaves. -/
def leaving (known : World → Prop) (stops : Interrupt → World → Prop) : Course known where
  goes _ _ _ := True
  stops _ i w' := stops i w'
  refl _ := trivial
  trans _ _ _ _ := trivial
  stop _ _ _ h := h

/-- Of courses that look at how they stop only, one is part of another that stops for more
reasons. -/
theorem leaving_mono {stops stops' : Interrupt → World → Prop}
    (h : ∀ i w, stops i w → stops' i w) : leaving known stops ≤ leaving known stops' :=
  ⟨fun _ _ _ => id, fun _ => h⟩

/-- What follows one course in a new scope, made inside `p` in the world `w`, follows another
one around it. -/
structure Opens {inner outer : World → Prop} (c : Course inner) (d : Course outer) (w : World)
    (p : ScopeId) (owns : Bool) : Prop where
  known : inner ((Eval.newScope p owns).after w)
  goes : ∀ {ns w'}, inner w' → c.goes ((Eval.newScope p owns).after w) ns w' →
    outer w' ∧ d.goes w ns w'
  stops : ∀ {i w'}, c.stops ((Eval.newScope p owns).after w) i w' → d.stops w i w'

/-- What is around a new scope may be told in other words. -/
theorem Opens.imp {inner outer outer' : World → Prop} {c : Course inner} {d : Course outer}
    {d' : Course outer'} {w : World} {p : ScopeId} {owns : Bool} (h : Opens c d w p owns)
    (goes : ∀ {ns w'}, outer w' → d.goes w ns w' → outer' w' ∧ d'.goes w ns w')
    (stops : ∀ {i w'}, d.stops w i w' → d'.stops w i w') : Opens c d' w p owns where
  known := h.known
  goes hw going := goes (h.goes hw going).1 (h.goes hw going).2
  stops stopping := stops (h.stops stopping)

/-- What follows the first course follows the second one when it leaves a node, where a failure
gets its place. -/
structure Leaves (span : Span) (c d : Course known) : Prop where
  goes : ∀ {w ns w'}, c.goes w ns w' → d.goes w ns w'
  failure : ∀ {w f w'}, c.stops w (.failure f) w' → d.stops w (.failure (f.locate span)) w'
  result : ∀ {w v w'}, c.stops w (.result v) w' → d.stops w (.result v) w'
  exhausted : ∀ {w w'}, c.stops w .exhausted w' → d.stops w .exhausted w'

/-- What follows the first course follows the second one if it ends at a result, past no node. -/
structure Catches (value : Value → Prop) (c d : Course known) : Prop where
  goes : ∀ {w ns w'}, known w' → c.goes w ns w' → d.goes w [] w'
  failure : ∀ {w f w'}, c.stops w (.failure f) w' → d.stops w (.failure f) w'
  result : ∀ {w v w'}, c.stops w (.result v) w' → known w' ∧ d.goes w [] w' ∧ value v
  exhausted : ∀ {w w'}, c.stops w .exhausted w' → d.stops w .exhausted w'

end Course

namespace Eval

variable {α β γ : Type} {known : World → Prop} {c d : Course known} {w w' : World}
  {fits : α → List Node → Prop} {fits' : β → List Node → Prop}

/-- Something that fits, past no node. -/
def PastNone (fits : α → Prop) (a : α) (ns : List Node) : Prop :=
  ns = [] ∧ fits a

/-- The nodes that have been come past, which fit. -/
def Past (fits : List Node → Prop) (ms ns : List Node) : Prop :=
  ms = ns ∧ fits ms

/-- From the world `w`, the evaluation follows a course to an outcome that fits the nodes it has
come past, or stops on it. -/
def Takes (c : Course known) (w : World) (x : Eval α) (fits : α → List Node → Prop) : Prop :=
  Ends (fun i => c.stops w i (x.after w)) (x.outcome w) fun a =>
    known (x.after w) ∧ ∃ ns, c.goes w ns (x.after w) ∧ fits a ns

/-- From every world that is known, the evaluation follows a course. -/
def Follows (c : Course known) (x : Eval α) (fits : α → List Node → Prop) : Prop :=
  ∀ w, known w → Takes c w x fits

namespace Takes

/-- An evaluation has come to an end or has stopped. -/
theorem ended {x : Eval α} (hx : Takes c w x fits) :
    (∃ a ns, x.outcome w = .ok a ∧ known (x.after w) ∧ c.goes w ns (x.after w) ∧ fits a ns) ∨
      ∃ i, x.outcome w = .error i ∧ c.stops w i (x.after w) := by
  unfold Takes at hx
  generalize x.outcome w = o at hx
  cases hx with
  | ok h =>
    obtain ⟨hw', ns, going, fit⟩ := h
    exact .inl ⟨_, ns, rfl, hw', going, fit⟩
  | error h => exact .inr ⟨_, rfl, h⟩

/-- What fits may be said in weaker words. -/
theorem mono {x : Eval α} {fits' : α → List Node → Prop} (hx : Takes c w x fits)
    (h : ∀ a ns, fits a ns → fits' a ns) : Takes c w x fits' :=
  Ends.mono hx fun a ⟨hw, ns, going, fit⟩ => ⟨hw, ns, going, h a ns fit⟩

/-- What follows a course follows one that it is part of. -/
theorem weaken {x : Eval α} (hx : Takes c w x fits) (le : c ≤ d) : Takes d w x fits := by
  unfold Takes at hx ⊢
  generalize x.outcome w = o at hx
  cases hx with
  | ok h =>
    obtain ⟨hw, ns, going, fit⟩ := h
    exact .ok ⟨hw, ns, le.1 _ _ _ going, fit⟩
  | error h => exact .error (le.2 _ _ _ h)

/-- What follows may be told the world that the first part has come to, and how. -/
theorem bind_of_le {x : Eval α} {f : α → Eval β} (le : c ≤ d) (hw : known w)
    (hx : Takes c w x fits)
    (hf : ∀ a ns w', known w' → c.goes w ns w' → fits a ns →
      Takes d w' (f a) fun b ms => fits' b (ns ++ ms)) : Takes d w (x >>= f) fits' := by
  unfold Takes at hx
  rw [Takes, outcome_bind, after_bind]
  generalize x.outcome w = o at hx
  cases hx with
  | error h => exact .error (le.2 _ _ _ h)
  | ok h =>
    obtain ⟨hw', ns, going, fit⟩ := h
    rename_i a
    have rest := hf a ns _ hw' going fit
    unfold Takes at rest
    dsimp only
    generalize (f a).outcome (x.after w) = o at rest
    cases rest with
    | error h => exact .error (d.stop hw (le.1 _ _ _ going) hw' h)
    | ok h =>
      obtain ⟨hw'', ms, going', fit'⟩ := h
      exact .ok ⟨hw'', ns ++ ms, d.trans hw (le.1 _ _ _ going) hw' going', fit'⟩

/-- What follows may be told the world that the first part has come to; the nodes are those of
both. -/
theorem bind {x : Eval α} {f : α → Eval β} (hw : known w) (hx : Takes c w x fits)
    (hf : ∀ a ns w', known w' → c.goes w ns w' → fits a ns →
      Takes c w' (f a) fun b ms => fits' b (ns ++ ms)) : Takes c w (x >>= f) fits' :=
  bind_of_le c.le_refl hw hx hf

/-- What is made of the outcome, and of the way, may be told how it has come about. -/
theorem finish {x : Eval α} {f : α → Eval β} (hx : Takes c w x fits)
    (h : ∀ a ns w', known w' → c.goes w ns w' → fits a ns → ∃ b ms, (f a).outcome w' = .ok b ∧
      known ((f a).after w') ∧ c.goes w ms ((f a).after w') ∧ fits' b ms) :
    Takes c w (x >>= f) fits' := by
  unfold Takes at hx
  rw [Takes, outcome_bind, after_bind]
  generalize x.outcome w = o at hx
  cases hx with
  | error h => exact .error h
  | ok h' =>
    obtain ⟨hw', ns, going, fit⟩ := h'
    obtain ⟨b, ms, e, hw'', going', fit'⟩ := h _ ns _ hw' going fit
    dsimp only
    rw [e]
    exact .ok ⟨hw'', ms, going', fit'⟩

/-- What follows something that has come past no node. -/
theorem next {P : α → Prop} {x : Eval α} {f : α → Eval β} (hw : known w)
    (hx : Takes c w x (PastNone P))
    (hf : ∀ a w', known w' → c.goes w [] w' → P a → Takes c w' (f a) fits') :
    Takes c w (x >>= f) fits' :=
  hx.bind hw fun a ns w' hw' going ⟨nil, fit⟩ => by
    subst nil
    exact hf a w' hw' going fit

/-- A change of the world, which the course allows. -/
theorem step {x : Eval α} {a : α} (e : x.outcome w = .ok a) (hw : known (x.after w))
    {ns : List Node} (going : c.goes w ns (x.after w)) (fit : fits a ns) : Takes c w x fits := by
  rw [Takes, e]
  exact .ok ⟨hw, ns, going, fit⟩

/-- What is done in a new scope. -/
theorem newScope {inner : World → Prop} {c : Course inner} {d : Course known} {p : ScopeId}
    {owns : Bool} {f : ScopeId → Eval α} (opens : Course.Opens c d w p owns)
    (hf : Takes c ((Eval.newScope p owns).after w) (f w.scopes.all.size) fits) :
    Takes d w (Eval.newScope p owns >>= f) fits := by
  unfold Takes at hf
  rw [Takes, outcome_bind, after_bind, outcome_newScope]
  dsimp only
  generalize (f w.scopes.all.size).outcome _ = o at hf
  cases hf with
  | error h => exact .error (opens.stops h)
  | ok h =>
    obtain ⟨hw, ns, going, fit⟩ := h
    obtain ⟨hw', going'⟩ := opens.goes hw going
    exact .ok ⟨hw', ns, going', fit⟩

end Takes

namespace Follows

/-- What fits may be said in weaker words, from every world. -/
theorem mono {x : Eval α} {fits' : α → List Node → Prop} (hx : Follows c x fits)
    (h : ∀ a ns, fits a ns → fits' a ns) : Follows c x fits' :=
  fun w hw => (hx w hw).mono h

/-- What follows a course follows one that it is part of, from every world. -/
theorem weaken {x : Eval α} (hx : Follows c x fits) (le : c ≤ d) : Follows d x fits :=
  fun w hw => (hx w hw).weaken le

/-- An evaluation may stand still. -/
theorem pure {a : α} (h : fits a []) : Follows c (Pure.pure a : Eval α) fits :=
  fun _ hw => .ok ⟨hw, [], c.refl hw, h⟩

/-- An evaluation may be interrupted where the course allows it. -/
theorem throw {i : Interrupt} (h : ∀ w, known w → c.stops w i w) :
    Follows c (MonadExcept.throw i : Eval α) fits :=
  fun w hw => .error (h w hw)

/-- What follows goes on from where the first part has come to. -/
theorem bind {x : Eval α} {f : α → Eval β} (hx : Follows c x fits)
    (hf : ∀ a ns, fits a ns → Follows c (f a) fun b ms => fits' b (ns ++ ms)) :
    Follows c (x >>= f) fits' :=
  fun w hw => (hx w hw).bind hw fun a _ _ hw' _ fit => hf a _ fit _ hw'

/-- What follows something that has come past no node, from any world that is known. -/
theorem next {P : α → Prop} {x : Eval α} {f : α → Eval β} (hx : Follows c x (PastNone P))
    (hf : ∀ a, P a → Follows c (f a) fits') : Follows c (x >>= f) fits' :=
  fun w hw => (hx w hw).next hw fun a _ hw' _ fit => hf a fit _ hw'

/-- What comes of nodes that have been come past. -/
theorem past {P : List Node → Prop} {f : List Node → Eval β} {x : Eval (List Node)}
    (hx : Follows c x (Past P))
    (hf : ∀ ms, P ms → Follows c (f ms) fun b ns => fits' b (ms ++ ns)) :
    Follows c (x >>= f) fits' :=
  hx.bind fun ms _ ⟨same, fit⟩ => same ▸ hf ms fit

/-- What follows a look at the scopes may be told the world that they are of. -/
theorem scopes_bind {f : Scopes → Eval α} (h : ∀ w, known w → Takes c w (f w.scopes) fits) :
    Follows c (Eval.scopes >>= f) fits :=
  fun w hw => h w hw

/-- A change of the scopes. -/
theorem modifyScopes {f : Scopes → Scopes}
    (h : ∀ w, known w → known { w with scopes := f w.scopes } ∧
      c.goes w [] { w with scopes := f w.scopes }) :
    Follows c (Eval.modifyScopes f) (PastNone fun _ => True) :=
  fun w hw => .ok ⟨(h w hw).1, [], (h w hw).2, rfl, trivial⟩

/-- A computation with values leaves the world alone. -/
theorem lift {fails : Failure → Prop} {P : α → Prop} {x : Except Failure α}
    (raises : ∀ w f, known w → fails f → c.stops w (.failure f) w) (h : Ends fails x P) :
    Follows c (Eval.lift x) (PastNone P) := by
  cases h with
  | ok ha => exact .pure ⟨rfl, ha⟩
  | error hf => exact .throw fun w hw => raises w _ hw hf

/-- One after the other, past no node. -/
theorem mapM {P : α → Prop} {f : γ → Eval α} {l : List γ}
    (h : ∀ a ∈ l, Follows c (f a) (PastNone P)) :
    Follows c (l.mapM f) (PastNone fun bs => ∀ b ∈ bs, P b) := by
  induction l with
  | nil => exact .pure ⟨rfl, nofun⟩
  | cons a l ih =>
    rw [List.mapM_cons]
    refine (h a List.mem_cons_self).next fun b hb => ?_
    refine (ih fun e he => h e (List.mem_cons_of_mem a he)).next fun bs hbs => .pure ⟨rfl, ?_⟩
    exact List.forall_mem_cons.2 ⟨hb, hbs⟩

/-- One after the other, past the nodes of all of them. -/
theorem mapM_past {P : γ → List Node → Prop} {f : γ → Eval (List Node)} {l : List γ}
    (h : ∀ a ∈ l, Follows c (f a) (Past (P a))) :
    Follows c (l.mapM f) fun mss ns => mss.flatten = ns ∧ List.Forall₂ P l mss := by
  induction l with
  | nil => exact .pure ⟨rfl, .nil⟩
  | cons a l ih =>
    rw [List.mapM_cons]
    refine (h a List.mem_cons_self).past fun ms hms => ?_
    refine (ih fun e he => h e (List.mem_cons_of_mem a he)).bind fun mss ns ⟨same, hmss⟩ =>
      .pure ⟨?_, .cons hms hmss⟩
    rw [List.flatten_cons, same, List.append_nil]

/-- One after the other, whatever they come past. -/
theorem forM {f : γ → Eval Unit} {l : List γ}
    (h : ∀ a ∈ l, Follows c (f a) fun _ _ => True) : Follows c (l.forM f) fun _ _ => True := by
  induction l with
  | nil => exact .pure trivial
  | cons a l ih =>
    show Follows c (f a >>= fun _ => l.forM f) _
    exact (h a List.mem_cons_self).bind fun _ _ _ => ih fun e he => h e (List.mem_cons_of_mem a he)

/-- What leaves a node. -/
theorem locate {x : Eval α} {span : Span} (hx : Follows c x fits)
    (leaves : Course.Leaves span c d) :
    Follows d (Eval.locate span x) fits := by
  intro w hw
  have ends := hx w hw
  unfold Takes at ends ⊢
  rw [after_locate, outcome, Eval.locate, run_tryCatch]
  generalize x.outcome w = o at ends
  cases ends with
  | ok h =>
    obtain ⟨hw', ns, going, fit⟩ := h
    exact .ok ⟨hw', ns, leaves.goes going, fit⟩
  | error h =>
    rename_i i
    cases i with
    | failure f => exact .error (leaves.failure h)
    | result v => exact .error (leaves.result h)
    | exhausted => exact .error (leaves.exhausted h)

/-- What ends at a result inside it. -/
theorem catchResult {value : Value → Prop} {x : Eval Unit} (hx : Follows c x fun _ _ => True)
    (catches : Course.Catches value c d) :
    Follows d (Eval.catchResult x) (PastNone fun o => ∀ v ∈ o, value v) := by
  intro w hw
  have inner : Follows c (do x; return none) fun (o : Option Value) _ => o = none :=
    hx.bind fun _ _ _ => .pure rfl
  have ends := inner w hw
  unfold Takes at ends ⊢
  rw [Eval.after, outcome, Eval.catchResult, run_tryCatch]
  generalize (do x; return none : Eval (Option Value)).outcome w = o at ends
  cases ends with
  | ok h =>
    obtain ⟨hw', ns, going, rfl⟩ := h
    exact .ok ⟨hw', [], catches.goes hw' going, rfl, fun v hv => absurd hv (Option.not_mem_none v)⟩
  | error h =>
    rename_i i
    cases i with
    | failure f => exact .error (catches.failure h)
    | exhausted => exact .error (catches.exhausted h)
    | result v =>
      obtain ⟨hw', going, hv⟩ := catches.result h
      refine .ok ⟨hw', [], going, rfl, fun u hu => ?_⟩
      cases Option.mem_some_iff.1 hu
      exact hv

end Follows
end Eval
end Stylesheet
