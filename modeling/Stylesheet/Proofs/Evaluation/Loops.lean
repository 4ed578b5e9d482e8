/-
# Loops over integers

A loop over integers evaluates its bounds, which have to be integers, and then its body once for
each integer from the first bound towards the second one (`Evaluation.Towards`).  The integers are
settled before the first round: a round assigns the next one to the variable of the loop, in the
block around all rounds, and evaluates the body in a block of its own (`Evaluation.run_round`).  So
nothing that a round assigns changes how the loop goes on, and what it adds is gone with its block:
of the scopes that are there before a round only the block of the loop gains a variable, which is
that of the loop (`Evaluation.within_rounds`).

A bound is looked at as binary64.  `Evaluation.visit_forLoop` is about bounds that binary64 has a
place for, and says that other integers end the loop with a failure that is no diagnostic.
-/

import Stylesheet.Compile
import Stylesheet.Proofs.Evaluation.Frame
import Stylesheet.Proofs.Value.Whole

namespace Stylesheet
namespace Evaluation

open Eval

/-! ### Bounds -/

/-- What an integer with its unit comes of: the value is one with that unit. -/
theorem wholeOf_spec {v : Value} (ranged : v.Ranged) (w : World) :
    ∃ o, (wholeOf v).run.run w = (.ok o, w) ∧
      ∀ a unit, o = some (a, unit) ↔ v.IsWhole a unit := by
  cases ranged with
  | @number x h unit =>
    obtain ⟨o, e, spec⟩ := h.asWhole_spec
    refine ⟨o.map fun a => (a, unit), ?_, fun a unit' => ?_⟩
    · rw [wholeOf, e]
      rfl
    · simp only [Option.map_eq_some_iff, Prod.mk.injEq, spec]
      constructor
      · rintro ⟨_, position, rfl, rfl⟩
        exact ⟨x, rfl, position⟩
      · rintro ⟨_, same, position⟩
        cases same
        exact ⟨a, position, rfl, rfl⟩
  | null | bool | string | list =>
    refine ⟨none, rfl, fun a unit => iff_of_false (Option.some_ne_none _).symm ?_⟩
    rintro ⟨x, same, -⟩
    cases same

variable {v : Value} {w : World} {label : String}

/-- A bound that is an integer. -/
theorem bound_of_isWhole (ranged : v.Ranged) {a : Int} {unit : String} (whole : v.IsWhole a unit) :
    (bound v label).run.run w = (.ok (a, unit), w) := by
  obtain ⟨o, run, spec⟩ := wholeOf_spec ranged w
  rw [(spec a unit).2 whole] at run
  exact run_bind_of_ok _ run

/-- A bound that is none. -/
theorem bound_of_not_isWhole (ranged : v.Ranged) (other : ∀ a unit, ¬v.IsWhole a unit) :
    ∃ text, v.css = .ok text ∧
      (bound v label).run.run w = (.error (.failure (.ofCause (.notInteger text label))), w) := by
  obtain ⟨o, run, spec⟩ := wholeOf_spec ranged w
  obtain ⟨text, e⟩ := ranged.exists_css
  refine ⟨text, e, ?_⟩
  cases o with
  | some found => exact absurd ((spec found.1 found.2).1 rfl) (other _ _)
  | none =>
    refine (run_bind_of_ok _ run).trans ?_
    dsimp only
    rw [e]
    rfl

/-- An integer that binary64 has no place for. -/
theorem bound_of_not_ranged {x : Number.Numeric} (h : ¬x.Ranged) (unit : String) :
    (bound (.number x unit) label).run.run w = (.error (.failure (.range .overflow)), w) := by
  rw [bound, wholeOf, Number.Numeric.asWhole_of_not_ranged h]
  rfl

/-! ### The integers of a loop -/

/-- The integers from `a` towards `b` in order; `b` is left out if `exclusive`. -/
structure Towards (a b : Int) (exclusive : Bool) (ks : List Int) : Prop where
  mem : ∀ k, k ∈ ks ↔ (a ≤ k ∧ k ≤ b ∨ b ≤ k ∧ k ≤ a) ∧ (exclusive → k ≠ b)
  up : a ≤ b → ks.Pairwise (· < ·)
  down : b < a → ks.Pairwise (· > ·)
  length : ks.length = (b - a).natAbs + if exclusive then 0 else 1

/-- There is one way only from a bound towards the other. -/
theorem Towards.unique {a b : Int} {exclusive : Bool} {ks ks' : List Int}
    (h : Towards a b exclusive ks) (h' : Towards a b exclusive ks') : ks = ks' := by
  have same (k : Int) : k ∈ ks ↔ k ∈ ks' := (h.mem k).trans (h'.mem k).symm
  rcases lt_or_ge b a with down | up
  · have sorted := h.down down
    have sorted' := h'.down down
    refine List.Perm.eq_of_pairwise (fun x y _ _ => ?_) sorted sorted' ?_
    · intro xy yx
      omega
    · exact (List.perm_ext_iff_of_nodup (sorted.imp ne_of_gt) (sorted'.imp ne_of_gt)).2 same
  · have sorted := h.up up
    have sorted' := h'.up up
    refine List.Perm.eq_of_pairwise (fun x y _ _ => ?_) sorted sorted' ?_
    · intro xy yx
      omega
    · exact (List.perm_ext_iff_of_nodup (sorted.imp ne_of_lt) (sorted'.imp ne_of_lt)).2 same

/-- So many integers from `start` on, a step from one to the next. -/
def steps (start : Int) : Nat × Int → List Int
  | (count, step) => (List.range count).map fun j : Nat => start + step * j

/-- The range of a loop leads from one bound towards the other. -/
theorem towards_range (a b : Int) (exclusive : Bool) :
    Towards a b exclusive (steps a (range a b exclusive)) := by
  have size : (steps a (range a b exclusive)).length =
      (b - a).natAbs + if exclusive then 0 else 1 := by
    simp [steps, range]
  have step : (range a b exclusive).2 = if a ≤ b then 1 else -1 := rfl
  have count : (range a b exclusive).1 = (b - a).natAbs + if exclusive then 0 else 1 := rfl
  refine ⟨fun k => ?_, fun up => ?_, fun down => ?_, size⟩
  · simp only [steps, List.mem_map, List.mem_range, step, count]
    constructor
    · rintro ⟨j, less, rfl⟩
      cases exclusive <;> split <;> simp at less ⊢ <;> omega
    · intro between
      refine ⟨(k - a).natAbs, ?_, ?_⟩
      · cases exclusive <;> simp at between ⊢ <;> omega
      · split <;> omega
  · rw [steps, List.pairwise_map, step, if_pos up]
    exact List.pairwise_lt_range.imp fun less => by omega
  · rw [steps, List.pairwise_map, step, if_neg (by omega)]
    exact List.pairwise_lt_range.imp fun less => by omega

/-! ### Rounds -/

/-- The nodes of some rounds of a loop, one for each integer in turn. -/
def rounds (r : Recursion) (loop : ScopeId) (var unit : String) (body : List Node)
    (ks : List Int) : Eval (List (List Node)) :=
  (ks.map fun k => Value.number (.int k) unit).mapM (round r loop var body)

/-- The first step is at the start, and the others follow it. -/
theorem steps_succ (start step : Int) (n : Nat) :
    steps start (n + 1, step) = start :: steps (start + step) (n, step) := by
  rw [steps, steps, List.range_succ_eq_map, List.map_cons, List.map_map]
  refine congrArg₂ _ (by simp) (List.map_congr_left fun j _ => ?_)
  rw [Function.comp, Nat.succ_eq_add_one, Int.natCast_add, Int.mul_add]
  omega

/-- The values of a loop over integers are its steps, with the unit. -/
theorem counted_eq_map (unit : String) (step : Int) (n : Nat) (start : Int) :
    counted unit step n start =
      (steps start (n, step)).map fun k => Value.number (.int k) unit := by
  induction n generalizing start with
  | zero => rfl
  | succ n ih => rw [counted, steps_succ, ih, List.map_cons]

/-- The world in which a round evaluates the body: with the value of the variable, and in a new
block. -/
def entered (loop : ScopeId) (var : String) (v : Value) (w : World) : World :=
  (newBlock loop).after { w with scopes := w.scopes.setLocalVar loop var v }

/-- A round is a run of the body in a block that has been entered. -/
theorem run_round (r : Recursion) (loop : ScopeId) (var : String) (body : List Node) (v : Value)
    (w : World) : (round r loop var body v).run.run w =
      (visitAll r w.scopes.all.size body).run.run (entered loop var v w) := by
  have size : (w.scopes.setLocalVar loop var v).all.size = w.scopes.all.size :=
    Scopes.size_modify _ _ _
  rw [← size]
  rfl

section

variable {r : Recursion} (hr : r.Framed) (loop : ScopeId) (var unit : String) (body : List Node)

include hr

/-- **What a round leaves alone**: of the blocks that are there before, none gains a variable but
that of the loop, which gains its own. -/
theorem within_round (v : Value) :
    Steps (Within loop { var := (· = Name.normalize var), buffer := True })
      (round r loop var body v) :=
  .bind (within_modifyScopes (fun _ => .setLocalVar loop var v)
    fun s _ _ => s.frame_setLocalVar loop var v rfl) fun _ =>
      within_visitBody hr loop body trivial

/-- Of the blocks that are there before, no round gives one a variable but the first its own. -/
theorem within_rounds (ks : List Int) :
    Steps (Within loop { var := (· = Name.normalize var), buffer := True })
      (rounds r loop var unit body ks) :=
  .mapM fun _ _ => within_round hr loop var body _

end

/-! ### What a round finds -/

/-- The variable of the loop has its value in the block of the loop. -/
theorem var?_setLocalVar {s : Scopes} {i : Nat} (hi : i < s.all.size) (name : String)
    (v : Value) : (s.setLocalVar i name v).var? i name = some v := by
  rw [Scopes.var?, Scopes.find?, Scopes.chain, List.findSome?_cons, Scopes.setLocalVar,
    Scopes.get_modify_self hi, Table.get?_set_self]

/-- The body finds what is in reach of the block of the loop. -/
theorem var?_entered {w : World} (hw : w.scopes.Reachable) {loop : Nat}
    (hl : loop < w.scopes.all.size) (var : String) (v : Value) (name : String) :
    (entered loop var v w).scopes.var? w.scopes.all.size name =
      (w.scopes.setLocalVar loop var v).var? loop name := by
  have size : (w.scopes.setLocalVar loop var v).all.size = w.scopes.all.size :=
    Scopes.size_modify _ _ _
  rw [← size] at hl ⊢
  exact Scopes.var?_add (Scopes.Reachable.setLocalVar loop var v hw).wellFormed hl false name

/-- **What the body of a round finds**, whatever the rounds before it have done: the variable of the
loop with its value, and else the names that are in reach of the scope around the loop. -/
theorem entered_spec {r : Recursion} (hr : r.Framed) {w : World} (hw : w.scopes.Reachable)
    {i : Nat} (hi : i < w.scopes.all.size) (var unit : String) (body : List Node)
    (before : List Int) (v : Value) {w' : World}
    (run : ((rounds r w.scopes.all.size var unit body before).after ((newBlock i).after w)) = w') :
    (entered w.scopes.all.size var v w').scopes.var? w'.scopes.all.size var = some v ∧
      ∀ name, Name.normalize name ≠ Name.normalize var →
        ((entered w.scopes.all.size var v w').scopes.var? w'.scopes.all.size name).isSome =
          (w.scopes.var? i name).isSome := by
  subst run
  have made : ((newBlock i).after w).scopes.Reachable :=
    hw.add none (some false) fun q e => Option.some.inj e ▸ hi
  have there : w.scopes.all.size < ((newBlock i).after w).scopes.all.size := by
    simp [newBlock]
  obtain ⟨hw', frame⟩ := within_rounds hr w.scopes.all.size var unit body before _ made there
  generalize (rounds r w.scopes.all.size var unit body before).after _ = w' at hw' frame ⊢
  have there' : w.scopes.all.size < w'.scopes.all.size := Nat.lt_of_lt_of_le there frame.grows
  refine ⟨?_, fun name other => ?_⟩
  · rw [var?_entered hw' there', var?_setLocalVar there']
  · have assigned := frame.trans (w'.scopes.frame_setLocalVar _ var v rfl) made.wellFormed there
    rw [var?_entered hw' there', assigned.isSome_var?_eq made.wellFormed other there]
    exact congrArg _ (Scopes.var?_add hw.wellFormed hi false name)

/-! ### Whole loops -/

section

variable {r : Recursion} {i : ScopeId} {info : Info} {var : String} {start stop : Expr}
  {exclusive : Bool} {body : List Node} {v u : Value} {w w₁ w₂ w' : World}

/-- A loop over integers evaluates both bounds, makes a block and goes round in it. -/
theorem visitNode_forLoop (r : Recursion) (i : ScopeId) (info : Info) (var : String)
    (start stop : Expr) (exclusive : Bool) (body : List Node) :
    visitNode r i (.plain info (.forLoop var (some start) (some stop) exclusive) body) =
      locate info.span (r.eval i start >>= fun v => bound v "from" >>= fun first =>
        r.eval i stop >>= fun u => bound u "to" >>= fun last => newBlock i >>= fun loop =>
          rounds r loop var first.2 body (steps first.1 (range first.1 last.1 exclusive)) >>=
            fun results => pure results.flatten) := by
  simp only [visitNode, visitPlain, evalRequired, required, pure_bind, forRounds_eq_mapM,
    counted_eq_map, List.reverse_nil, List.nil_append]
  rfl

variable (first : (r.eval i start).run.run w = (.ok v, w₁))

include first

/-- A first bound that is refused ends the loop. -/
theorem run_forLoop_of_first {f : Failure}
    (bad : (bound v "from").run.run w₁ = (.error (.failure f), w')) :
    (visitNode r i (.plain info (.forLoop var (some start) (some stop) exclusive) body)).run.run w =
      (.error (.failure (f.locate info.span)), w') := by
  rw [visitNode_forLoop]
  refine run_locate_failure _ ?_
  rw [run_bind_of_ok _ first, run_bind_of_error _ bad]

variable {a : Int} {unit : String} (ranged : v.Ranged) (whole : v.IsWhole a unit)
  (last : (r.eval i stop).run.run w₁ = (.ok u, w₂))

include ranged whole last

/-- So does a second one, after a first one that is an integer. -/
theorem run_forLoop_of_last {f : Failure}
    (bad : (bound u "to").run.run w₂ = (.error (.failure f), w')) :
    (visitNode r i (.plain info (.forLoop var (some start) (some stop) exclusive) body)).run.run w =
      (.error (.failure (f.locate info.span)), w') := by
  rw [visitNode_forLoop]
  refine run_locate_failure _ ?_
  rw [run_bind_of_ok _ first, run_bind_of_ok _ (bound_of_isWhole ranged whole),
    run_bind_of_ok _ last, run_bind_of_error _ bad]

/-- Between two integers the loop goes through its rounds in a new block. -/
theorem run_forLoop {b : Int} {unit' : String} (ranged' : u.Ranged) (whole' : u.IsWhole b unit') :
    (visitNode r i (.plain info (.forLoop var (some start) (some stop) exclusive) body)).run.run w =
      (locate info.span (rounds r w₂.scopes.all.size var unit body
        (steps a (range a b exclusive)) >>= fun results =>
          pure results.flatten)).run.run ((newBlock i).after w₂) := by
  rw [visitNode_forLoop]
  refine run_locate_congr _ ?_
  rw [run_bind_of_ok _ first, run_bind_of_ok _ (bound_of_isWhole ranged whole),
    run_bind_of_ok _ last, run_bind_of_ok _ (bound_of_isWhole ranged' whole')]
  rfl

end

/-- **A loop over integers visits exactly its range.**  Take any loop in any scope of a store that
operations make, evaluated to any depth.  If its bounds come to integers `a` and `b` that binary64
has a place for, the loop is its rounds for the integers from `a` towards `b`, in order, and gives
what they become, put together.  Each round evaluates the body in a new block, where the variable
of the loop is the integer with the unit of `a` and the other names in reach are those around the
loop, whatever the rounds before have done.  A bound that is no integer ends the loop with a
diagnostic at its place, and an integer that binary64 has no place for with an overflow, both
before anything of the body is evaluated.  However the loop ends, no scope that was there before
has other names in reach after it. -/
theorem visit_forLoop (n : Nat) {w : World} (reachable : w.scopes.Reachable) {i : Nat}
    (there : i < w.scopes.all.size) (info : Info) (var : String) (start stop : Expr)
    (exclusive : Bool) (body : List Node) :
    let r := Recursion.ofDepth n
    let x := (Recursion.ofDepth (n + 1)).visit i
      (.plain info (.forLoop var (some start) (some stop) exclusive) body)
    let refused := fun cause =>
      Except.error (Interrupt.failure ((Failure.ofCause cause).locate info.span))
    (∀ v w₁ u w₂ a unit b unit', (r.eval i start).run.run w = (.ok v, w₁) →
      (r.eval i stop).run.run w₁ = (.ok u, w₂) → v.Ranged → u.Ranged →
      v.IsWhole a unit → u.IsWhole b unit' →
      let loop : ScopeId := w₂.scopes.all.size
      ∃ ks, Towards a b exclusive ks ∧
        x.run.run w = (locate info.span (rounds r loop var unit body ks >>= fun results =>
          pure results.flatten)).run.run ((newBlock i).after w₂) ∧
        ∀ before k after results w', ks = before ++ k :: after →
          (rounds r loop var unit body before).run.run ((newBlock i).after w₂) =
            (.ok results, w') →
          let value := Value.number (.int k) unit
          let block : ScopeId := w'.scopes.all.size
          let inside := entered loop var value w'
          (round r loop var body value).run.run w' =
              (visitAll r block body).run.run inside ∧
            inside.scopes.var? block var = some value ∧
            ∀ name, Name.normalize name ≠ Name.normalize var →
              (inside.scopes.var? block name).isSome = (w.scopes.var? i name).isSome) ∧
    (∀ v w₁, (r.eval i start).run.run w = (.ok v, w₁) →
      (v.Ranged → (∀ a unit, ¬v.IsWhole a unit) →
        ∃ text, v.css = .ok text ∧ x.run.run w = (refused (.notInteger text "from"), w₁)) ∧
      (∀ y unit, v = .number y unit → ¬y.Ranged →
        x.run.run w = (.error (.failure (.range .overflow)), w₁))) ∧
    (∀ v w₁ u w₂ a unit, (r.eval i start).run.run w = (.ok v, w₁) →
      (r.eval i stop).run.run w₁ = (.ok u, w₂) → v.Ranged → v.IsWhole a unit →
      (u.Ranged → (∀ b unit', ¬u.IsWhole b unit') →
        ∃ text, u.css = .ok text ∧ x.run.run w = (refused (.notInteger text "to"), w₂)) ∧
      (∀ y unit', u = .number y unit' → ¬y.Ranged →
        x.run.run w = (.error (.failure (.range .overflow)), w₂))) ∧
    ∀ j name, j < w.scopes.all.size →
      ((x.after w).scopes.var? j name).isSome = (w.scopes.var? j name).isSome := by
  intro r x refused
  have hr := Recursion.framed_ofDepth n
  refine ⟨?_, ?_, ?_, fun j name hj => ?_⟩
  · intro v w₁ u w₂ a unit b unit' first last ranged ranged' whole whole' loop
    refine ⟨_, towards_range a b exclusive,
      run_forLoop first ranged whole last ranged' whole', ?_⟩
    intro before k after results w' split run value block inside
    -- the bounds have gained nothing
    have bounds : Within i .none w w₂ := by
      have h := within_eval hr i start w
      have h' := within_eval hr i stop w₁
      rw [Eval.after, first] at h
      rw [Eval.after, last] at h'
      exact IsTrans.trans _ _ _ h h'
    obtain ⟨reachable', frame⟩ := bounds reachable there
    have there' : i < w₂.scopes.all.size := Nat.lt_of_lt_of_le there frame.grows
    obtain ⟨found, names⟩ := entered_spec hr reachable' there' var unit body before value
      (congrArg Prod.snd run)
    refine ⟨run_round r loop var body value w', found, fun name other => ?_⟩
    rw [names name other, frame.isSome_var?_eq reachable.wellFormed id there]
  · intro v w₁ first
    refine ⟨fun ranged other => ?_, fun y unit e large => ?_⟩
    · obtain ⟨text, css, bad⟩ := bound_of_not_isWhole ranged other
      exact ⟨text, css, run_forLoop_of_first first bad⟩
    · subst e
      exact run_forLoop_of_first first (bound_of_not_ranged large unit)
  · intro v w₁ u w₂ a unit first last ranged whole
    refine ⟨fun ranged' other => ?_, fun y unit' e large => ?_⟩
    · obtain ⟨text, css, bad⟩ := bound_of_not_isWhole ranged' other
      exact ⟨text, css, run_forLoop_of_last first ranged whole last bad⟩
    · subst e
      exact run_forLoop_of_last first ranged whole last (bound_of_not_ranged large unit')
  · have framed := within_visit (Recursion.framed_ofDepth (n + 1)) i
      (.plain info (.forLoop var (some start) (some stop) exclusive) body)
    exact (framed w reachable there).2.isSome_var?_eq reachable.wellFormed id hj

/-- A loop down from `3px` through `1`, with a comment as its body. -/
theorem visit_forLoop_down :
    let r := Recursion.ofDepth 1
    let w : World := { scopes := (Scopes.add {} none none none).2 }
    let c : Node := .plain {} (.comment "c" false) []
    let w' := (rounds r 1 "i" "px" [c] [3, 2]).after ((newBlock 0).after w)
    let value := Value.number (.int 1) "px"
    ((Recursion.ofDepth 2).visit 0 (.plain {} (.forLoop "i"
      (some (.literal (.number (.int 3) "px"))) (some (.literal (.number (.int 1) "")))
        false) [c])).outcome w = .ok [c, c, c] ∧
      (entered 1 "i" value w').scopes.var? w'.scopes.all.size "i" = some value := by
  intro r w c w' value
  have root : (Scopes.add {} none none none).2.Reachable :=
    Scopes.Reachable.empty.add none none fun _ h => nomatch h
  have small (k : Int) (h : k.natAbs < Number.Numeric.beyond) (unit : String) :
      (Value.number (.int k) unit).Ranged ∧ (Value.number (.int k) unit).IsWhole k unit :=
    ⟨.number (x := .int k) h unit, _, rfl, rfl⟩
  have three := small 3 (by decide +kernel) "px"
  have one := small 1 (by decide +kernel) ""
  obtain ⟨visits, -⟩ := visit_forLoop 1 (w := w) root (i := 0) (by decide +kernel) {} "i"
    (.literal (.number (.int 3) "px")) (.literal (.number (.int 1) "")) false [c]
  obtain ⟨ks, towards, run, inside⟩ :=
    visits _ w _ w 3 "px" 1 "" rfl rfl three.1 one.1 three.2 one.2
  obtain rfl : ks = [3, 2, 1] := towards.unique (towards_range 3 1 false)
  refine ⟨(congrArg Prod.fst run).trans rfl, ?_⟩
  exact (inside [3, 2] 1 [] _ w' rfl rfl).2.1

/-- Ten that is squared nine times is an integer, but no loop can start there, not even one
without a round. -/
theorem forLoop_overflow :
    (compile {} ("$a:length(1 2 3 4 5 6 7 8 9 10);@for $i from 1 to 10\x7b$a:$a*$a\x7d" ++
      "@for $i from $a to $a\x7bb\x7bc:d\x7d\x7d") #[]).1 = .error (.range .overflow) := by
  decide +kernel

end Evaluation
end Stylesheet
