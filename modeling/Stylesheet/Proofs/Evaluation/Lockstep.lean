/-
# Evaluations in lockstep

Two evaluations are in lockstep (`Eval.Matches`) if, started in a world and in one that it
is renamed into, they come to outcomes that fit together and leave such worlds behind, or
are interrupted for the same reason.  One of them may be allowed less depth than the other:
`first` and `second` say whether the first and the second may be exhausted while the other
goes on.  What is left in the log and in the history does not matter.

Evaluations that are put together from evaluations in lockstep are in lockstep; the rules
follow the ways of putting them together.  Evaluators that call evaluators in lockstep
evaluate expressions in lockstep (`Recursion.Lockstep.evalExpr`).
-/

import Stylesheet.Proofs.Evaluation.Run
import Stylesheet.Proofs.Scope.Renamed
import Mathlib.Data.List.Forall2

namespace Stylesheet

/-- A world renamed into another. -/
structure World.Renamed (R : Renaming) (w v : World) : Prop where
  scopes : w.scopes.Renamed R v.scopes
  /-- New groups are renamed to new groups. -/
  groups : ∀ m, R.group (w.groups.size + m) = v.groups.size + m

namespace Eval

variable {α β γ δ : Type}

/-- How two evaluations end that are in lockstep, in worlds that are related. -/
inductive Matched (related : World → World → Prop) (first second : Prop) (fits : α → β → Prop) :
    Except Interrupt α × World → Except Interrupt β × World → Prop where
  /-- Both come to an end. -/
  | ok {a : α} {b : β} {w v : World} (fit : fits a b) (worlds : related w v) :
      Matched related first second fits (.ok a, w) (.ok b, v)
  /-- Both are interrupted. -/
  | error {i : Interrupt} {w v : World} (worlds : related w v) :
      Matched related first second fits (.error i, w) (.error i, v)
  /-- The first is exhausted before the second. -/
  | early {w : World} {p : Except Interrupt β × World} (h : first) :
      Matched related first second fits (.error .exhausted, w) p
  /-- The second is exhausted before the first. -/
  | late {v : World} {p : Except Interrupt α × World} (h : second) :
      Matched related first second fits p (.error .exhausted, v)

/-- Two evaluations come to outcomes that fit in worlds renamed to each other. -/
def Matches (R : Renaming) (first second : Prop) (fits : α → β → Prop) (x : Eval α)
    (y : Eval β) : Prop :=
  ∀ w v, w.Renamed R v → Matched (World.Renamed R) first second fits (x.run.run w) (y.run.run v)

variable {R : Renaming} {first second : Prop} {fits : α → β → Prop} {fits' : γ → δ → Prop}
  {x : Eval α} {y : Eval β}

/-- What follows two ends, whatever is to be shown of it; it may use that they have come
about. -/
theorem Matched.elim_bind {related : World → World → Prop} {f : α → Eval γ} {g : β → Eval δ}
    {w v : World} (h : Matched related first second fits (x.run.run w) (y.run.run v))
    {P : Except Interrupt γ × World → Except Interrupt δ × World → Prop}
    (error : ∀ i w v, related w v → P (.error i, w) (.error i, v))
    (early : first → ∀ w p, P (.error .exhausted, w) p)
    (late : second → ∀ v p, P p (.error .exhausted, v))
    (ok : ∀ a b, fits a b → x.outcome w = .ok a → y.outcome v = .ok b →
      related (x.after w) (y.after v) →
        P ((f a).run.run (x.after w)) ((g b).run.run (y.after v))) :
    P ((x >>= f).run.run w) ((y >>= g).run.run v) := by
  rw [run_bind, run_bind]
  rw [run_eq, run_eq] at h
  generalize x.outcome w = o at h ok ⊢
  generalize y.outcome v = p at h ok ⊢
  cases h with
  | ok fit worlds => exact ok _ _ fit rfl rfl worlds
  | error worlds => exact error _ _ _ worlds
  | early h => exact early h _ _
  | late h => exact late h _ _

namespace Matches

/-- Evaluations that stand still are in lockstep if what they come to fits. -/
theorem pure {a : α} {b : β} (h : fits a b) :
    Matches R first second fits (Pure.pure a) (Pure.pure b) :=
  fun _ _ => .ok h

/-- The same interrupt is thrown on both sides. -/
theorem throw (i : Interrupt) :
    Matches R first second fits (MonadExcept.throw i) (MonadExcept.throw i) :=
  fun _ _ => .error

/-- Both sides are given up for the same cause. -/
theorem failWith (c : Cause) :
    Matches R first second fits (Eval.failWith c) (Eval.failWith c) :=
  .throw _

/-- The same computation comes to the same on both sides. -/
theorem lift (z : Except Failure α) :
    Matches R first second Eq (Eval.lift z) (Eval.lift z) := by
  cases z with
  | ok a => exact .pure rfl
  | error f => exact .throw _

/-- The same computation with numbers comes to the same on both sides. -/
theorem liftRange (z : Except Number.RangeError α) :
    Matches R first second Eq (Eval.liftRange z) (Eval.liftRange z) :=
  .lift _

/-- What goes on in lockstep from outcomes that fit is in lockstep. -/
theorem bind {f : α → Eval γ} {g : β → Eval δ} (h : Matches R first second fits x y)
    (k : ∀ a b, fits a b → Matches R first second fits' (f a) (g b)) :
    Matches R first second fits' (x >>= f) (y >>= g) :=
  fun w v worlds => (h w v worlds).elim_bind (fun _ _ _ => .error) (fun h _ _ => .early h)
    (fun h _ _ => .late h) fun a b fit _ _ worlds' => k a b fit _ _ worlds'

/-- What follows the same outcome. -/
theorem same_bind {x y : Eval α} {f : α → Eval γ} {g : α → Eval δ}
    (h : Matches R first second Eq x y)
    (k : ∀ a, Matches R first second fits' (f a) (g a)) :
    Matches R first second fits' (x >>= f) (y >>= g) :=
  h.bind fun a _ e => e ▸ k a

/-- What fits may be said in weaker words. -/
theorem mono {fits' : α → β → Prop} (h : Matches R first second fits x y)
    (k : ∀ a b, fits a b → fits' a b) : Matches R first second fits' x y := by
  have ends := h.bind (f := Pure.pure) (g := Pure.pure) fun a b fit => .pure (k a b fit)
  rwa [bind_pure, bind_pure] at ends

/-- A handler that lets exhaustion pass. -/
theorem tryCatch {f : Interrupt → Eval α} {g : Interrupt → Eval β}
    (h : Matches R first second fits x y)
    (passes : f .exhausted = MonadExcept.throw .exhausted)
    (passes' : g .exhausted = MonadExcept.throw .exhausted)
    (k : ∀ i, Matches R first second fits (f i) (g i)) :
    Matches R first second fits (MonadExcept.tryCatch x f) (MonadExcept.tryCatch y g) := by
  intro w v worlds
  rw [run_tryCatch, run_tryCatch]
  have ends := h w v worlds
  rw [run_eq, run_eq] at ends
  generalize x.outcome w = o at ends ⊢
  generalize y.outcome v = p at ends ⊢
  cases ends with
  | ok fit worlds' => exact .ok fit worlds'
  | error worlds' => exact k _ _ _ worlds'
  | early h =>
    dsimp only
    rw [passes]
    exact .early h
  | late h =>
    dsimp only
    rw [passes']
    exact .late h

/-- Failures get the same place on both sides. -/
theorem locate (span : Span) (h : Matches R first second fits x y) :
    Matches R first second fits (Eval.locate span x) (Eval.locate span y) :=
  h.tryCatch rfl rfl fun i => by cases i <;> exact .throw _

/-- The same results are caught on both sides. -/
theorem catchResult {x y : Eval Unit} (h : Matches R first second Eq x y) :
    Matches R first second Eq (Eval.catchResult x) (Eval.catchResult y) :=
  (h.same_bind fun _ => .pure rfl).tryCatch rfl rfl fun i => by
    cases i with
    | result v => exact .pure rfl
    | failure f => exact .throw _
    | exhausted => exact .throw _

/-- One after the other, in lockstep. -/
theorem mapM {ε : Type} {f : ε → Eval α} {g : ε → Eval β} {l : List ε}
    (h : ∀ c ∈ l, Matches R first second fits (f c) (g c)) :
    Matches R first second (List.Forall₂ fits) (l.mapM f) (l.mapM g) := by
  induction l with
  | nil => exact .pure .nil
  | cons c l ih =>
    rw [List.mapM_cons, List.mapM_cons]
    refine (h c List.mem_cons_self).bind fun a b fit => ?_
    refine (ih fun d hd => h d (List.mem_cons_of_mem c hd)).bind fun as bs rest => ?_
    exact .pure (.cons fit rest)

/-- One after the other, with the same outcomes. -/
theorem mapM_eq {ε : Type} {f g : ε → Eval α} {l : List ε}
    (h : ∀ c ∈ l, Matches R first second Eq (f c) (g c)) :
    Matches R first second Eq (l.mapM f) (l.mapM g) :=
  (mapM h).mono fun _ _ e => List.forall₂_eq_eq_eq ▸ e

/-- One after the other, with nothing to come of it. -/
theorem forM {ε : Type} {f g : ε → Eval Unit} {l : List ε}
    (h : ∀ c ∈ l, Matches R first second Eq (f c) (g c)) :
    Matches R first second Eq (l.forM f) (l.forM g) := by
  induction l with
  | nil => exact .pure rfl
  | cons c l ih =>
    show Matches R first second Eq (f c >>= fun _ => l.forM f) (g c >>= fun _ => l.forM g)
    exact (h c List.mem_cons_self).same_bind fun _ =>
      ih fun d hd => h d (List.mem_cons_of_mem c hd)

/-- Both sides may look at their scopes, one of which is renamed into the other. -/
theorem scopes_bind {f : Scopes → Eval α} {g : Scopes → Eval β}
    (h : ∀ s s', s.Renamed R s' → Matches R first second fits (f s) (g s')) :
    Matches R first second fits (Eval.scopes >>= f) (Eval.scopes >>= g) :=
  fun w v worlds => h _ _ worlds.scopes w v worlds

/-- Both sides change their scopes, one of which stays renamed into the other. -/
theorem modifyScopes {f g : Scopes → Scopes}
    (h : ∀ s s', s.Renamed R s' → (f s).Renamed R (g s')) :
    Matches R first second Eq (Eval.modifyScopes f) (Eval.modifyScopes g) :=
  fun _ _ worlds => .ok rfl ⟨h _ _ worlds.scopes, worlds.groups⟩

/-- New scopes inside a scope and one in which the same is found. -/
theorem newScope {f : ScopeId → Eval α} {g : ScopeId → Eval β} {p p' : Nat}
    (pair : R.Pairs p p') (owns : Bool)
    (h : ∀ b : Nat, Matches R first second fits (f b) (g (R.scope b))) :
    Matches R first second fits (Eval.newScope p owns >>= f) (Eval.newScope p' owns >>= g) := by
  intro w v worlds
  have inside := h w.scopes.all.size ((Eval.newScope p owns).after w)
    ((Eval.newScope p' owns).after v) ⟨worlds.scopes.add pair owns, worlds.groups⟩
  have here : R.scope w.scopes.all.size = v.scopes.all.size := worlds.scopes.size 0
  rw [here] at inside
  exact inside

/-- Evaluations that leave nothing behind but notes. -/
theorem of_notes {x y : Eval Unit}
    (hx : ∀ w, ∃ log history, x.run.run w = (.ok (), { w with log, history }))
    (hy : ∀ w, ∃ log history, y.run.run w = (.ok (), { w with log, history })) :
    Matches R first second Eq x y := by
  intro w v worlds
  obtain ⟨log, history, e⟩ := hx w
  obtain ⟨log', history', e'⟩ := hy v
  rw [e, e']
  exact .ok rfl ⟨worlds.scopes, worlds.groups⟩

/-- Notes need not be the same. -/
theorem note (level : Level) (stage : Stage) (text text' : String) :
    Matches R first second Eq (Eval.note level stage text) (Eval.note level stage text') :=
  .of_notes (fun w => ⟨_, w.history, rfl⟩) fun v => ⟨_, v.history, rfl⟩

/-- What is written into the history need not be the same. -/
theorem record (keeper keeper' : Option ScopeId) (step step' : BufferStep) :
    Matches R first second Eq (Eval.record keeper step) (Eval.record keeper' step') :=
  .of_notes (fun w => ⟨w.log, _, rfl⟩) fun v => ⟨v.log, _, rfl⟩

end Matches
end Eval

/-- Nodes that are renamed to others. -/
def Renaming.Same (R : Renaming) (ns ns' : List Node) : Prop :=
  Node.renamedAll R.group R.free ns = Node.renamedAll id R.free ns'

/-- Where a node is visited in lockstep: in a scope and the one that it is renamed to, or, if
nothing is done in the scope itself, in any in which the same is found. -/
def Renaming.Visits (R : Renaming) (i i' : Nat) (n : Node) : Prop :=
  i' = R.scope i ∨ R.Pairs i i' ∧ n.grouping

/-- A node that is no rule, query or condition is visited in the scope that its scope is renamed
to. -/
theorem Renaming.Visits.here {R : Renaming} {i i' : Nat} {n : Node} (h : R.Visits i i' n)
    (does : n.grouping = false) : i' = R.scope i := by
  refine h.resolve_right fun other => ?_
  rw [other.2] at does
  cases does

/-- Evaluators whose evaluations are in lockstep. -/
structure Recursion.Lockstep (R : Renaming) (first second : Prop) (r r' : Recursion) : Prop where
  /-- Whose loops end before those of the other may be exhausted before it. -/
  fewer : r.rounds < r'.rounds → first
  more : r'.rounds < r.rounds → second
  eval : ∀ i i' e, R.Pairs i i' → Eval.Matches R first second Eq (r.eval i e) (r'.eval i' e)
  visit : ∀ i i' n, R.Visits i i' n → n.fresh true →
    Eval.Matches R first second R.Same (r.visit i n) (r'.visit i' n)

namespace Scopes

variable {s : Scopes} {i : Nat}

/-- What is found is made of what has not been evaluated. -/
theorem Renamed.fresh_of_function? {R : Renaming} {s' : Scopes} (h : s.Renamed R s')
    {name : String} {d : Definition} (found : s.function? i name = some d) :
    Node.freshAll true d.body := by
  obtain ⟨j, -, e⟩ := exists_of_function? found
  exact (h.scope j).written _ d (.inr e)

/-- A mixin that is found has not been evaluated. -/
theorem Renamed.fresh_of_mixin? {R : Renaming} {s' : Scopes} (h : s.Renamed R s')
    {name : String} {d : Definition} (found : s.mixin? i name = some d) :
    Node.freshAll true d.body := by
  obtain ⟨j, -, e⟩ := exists_of_mixin? found
  exact (h.scope j).written _ d (.inl e)

end Scopes

namespace Recursion.Lockstep

open Evaluation
open Eval (Matches)

variable {R : Renaming} {first second : Prop} {r r' : Recursion} {i i' : Nat}
  (hr : r.Lockstep R first second r')

section Expressions

variable (pair : R.Pairs i i')

include hr pair

/-- The holes of a template are filled with the same texts. -/
theorem fill (t : Template) : Matches R first second Eq (fill r i t) (fill r' i' t) := by
  refine (Matches.mapM_eq fun fragment _ => ?_).same_bind fun texts => .pure rfl
  cases fragment with
  | text s => exact .pure rfl
  | hole e => exact (hr.eval i i' e pair).same_bind fun v => .liftRange _

/-- Keyword arguments have the same values on both sides. -/
theorem evalKeywords (keywords : List (String × Expr)) :
    Matches R first second Eq (evalKeywords r i keywords) (evalKeywords r' i' keywords) :=
  .mapM_eq fun k _ => (hr.eval i i' k.2 pair).same_bind fun _ => .pure rfl

/-- Arguments have the same values on both sides. -/
theorem evalArguments (args : List Expr) :
    Matches R first second Eq (args.mapM (r.eval i)) (args.mapM (r'.eval i')) :=
  .mapM_eq fun e _ => hr.eval i i' e pair

/-- A parameter is supplied with the same value on both sides. -/
theorem argument (d : Definition) (keywords : Table Value) (p : Parameter)
    (args : List Value) :
    Matches R first second Eq (argument r d i keywords p args)
      (argument r' (R.definition d) i' keywords p args) := by
  unfold Evaluation.argument
  extract_lets key
  split
  · exact .failWith _
  · exact .pure rfl
  · exact .pure rfl
  · exact hr.eval i i' _ pair
  · exact .failWith _

end Expressions

section Invocations

include hr

/-- The parameters of a definition are bound to the same values, in renamed scopes. -/
theorem bindParams (d : Definition) (b : Nat) (keywords : Table Value)
    (params : List Parameter) (args : List Value) :
    Matches R first second Eq (bindParams r d b keywords params args)
      (bindParams r' (R.definition d) (R.scope b) keywords params args) := by
  induction params generalizing args with
  | nil => exact .pure rfl
  | cons p params ih =>
    refine (hr.argument (.inl rfl) d keywords p args).same_bind fun v => ?_
    exact (Matches.modifyScopes fun s s' h => h.setLocalVar b _ v).same_bind fun _ =>
      ih args.tail

/-- Arguments are bound to the same values, in renamed scopes, or refused for the same cause. -/
theorem bindArguments (d : Definition) (b : Nat) (args : List Value)
    (keywords : List (String × Value)) :
    Matches R first second Eq (bindArguments r d b args keywords)
      (bindArguments r' (R.definition d) (R.scope b) args keywords) := by
  unfold Evaluation.bindArguments
  extract_lets table names names'
  have same : names' = names := rfl
  rw [same]
  split
  · exact .failWith _
  · cases unknownKeyword? table names with
    | some k => exact .failWith _
    | none => exact hr.bindParams d b table d.params args

/-- An invocation, and what is done in its scope. -/
theorem invocation {α β : Type} {fits : α → β → Prop} (d : Definition) (args : List Value)
    (keywords : List (String × Value)) {f : ScopeId → Eval α} {g : ScopeId → Eval β}
    (h : ∀ b : Nat, Matches R first second fits (f b) (g (R.scope b))) :
    Matches R first second fits (Evaluation.bind r d args keywords >>= f)
      (Evaluation.bind r' (R.definition d) args keywords >>= g) := by
  rw [Evaluation.bind_bind, Evaluation.bind_bind]
  refine .newScope (.inl rfl) true fun b => ?_
  exact (hr.bindArguments d b args keywords).same_bind fun _ => h b

/-- A function comes to the same value on both sides. -/
theorem invoke (d : Definition) (fresh : Node.freshAll true d.body) (args : List Value)
    (keywords : List (String × Value)) :
    Matches R first second Eq (invoke r d args keywords)
      (invoke r' (R.definition d) args keywords) := by
  refine hr.invocation d args keywords fun b => ?_
  have body : Matches R first second Eq (d.body.forM fun n => do let _ ← r.visit b n)
      (d.body.forM fun n => do let _ ← r'.visit (R.scope b) n) :=
    .forM fun n hn =>
      (hr.visit b _ n (.inl rfl) (Node.freshAll_iff.1 fresh n hn)).bind fun _ _ _ => .pure rfl
  refine body.catchResult.same_bind fun result => ?_
  cases result with
  | some v => exact .pure rfl
  | none => exact .failWith _

end Invocations

section Expressions

variable (pair : R.Pairs i i')

omit hr in
/-- A call that is written out is the same text on both sides. -/
theorem plainCall (name : String) (args : List Value) (keywords : List (String × Value)) :
    Matches R first second Eq (plainCall name args keywords) (plainCall name args keywords) := by
  refine (Matches.mapM_eq fun v _ => .liftRange _).same_bind fun texts => ?_
  refine (Matches.mapM_eq fun k _ => ?_).same_bind fun named => .pure rfl
  exact (Matches.liftRange _).same_bind fun _ => .pure rfl

include hr pair

/-- A call comes to the same value on both sides. -/
theorem call (name : String) (args : List Value) (keywords : List (String × Value)) :
    Matches R first second Eq (call r i name args keywords) (call r' i' name args keywords) := by
  refine .scopes_bind fun s s' h => ?_
  rw [h.function?_eq pair]
  cases found : s.function? i name with
  | some d => exact hr.invoke d (h.fresh_of_function? found) args keywords
  | none =>
    rw [Option.map_none]
    cases Builtin.find? name with
    | none => exact plainCall name args keywords
    | some f =>
      dsimp only
      split
      · split
        · exact .lift _
        · exact .failWith _
      · exact .failWith _

/-- **Expressions are evaluated in lockstep.** -/
theorem evalExpr (e : Expr) :
    Matches R first second Eq (evalExpr r i e) (evalExpr r' i' e) := by
  cases e with
  | literal v => exact .pure rfl
  | «variable» name =>
    refine .scopes_bind fun s s' h => ?_
    rw [h.var?_eq pair]
    cases s.var? i name with
    | some v => exact .pure rfl
    | none => exact .failWith _
  | binary left op right =>
    refine (hr.eval i i' left pair).same_bind fun a => ?_
    cases op with
    | and =>
      dsimp only
      split
      · exact hr.eval i i' right pair
      · exact .pure rfl
    | or =>
      dsimp only
      split
      · exact .pure rfl
      · exact hr.eval i i' right pair
    | _ => exact (hr.eval i i' right pair).same_bind fun b => .lift _
  | unary op operand => exact (hr.eval i i' operand pair).same_bind fun v => .lift _
  | call name args keywords =>
    exact (hr.evalArguments pair args).same_bind fun args =>
      (hr.evalKeywords pair keywords).same_bind fun keywords => hr.call pair name args keywords
  | list items separator =>
    exact (hr.evalArguments pair items).same_bind fun values => .pure rfl
  | interpolation fragments quoted =>
    exact (hr.fill pair fragments).same_bind fun text => .pure rfl

end Expressions
end Recursion.Lockstep
end Stylesheet
