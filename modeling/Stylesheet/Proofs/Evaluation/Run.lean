/-
# Running evaluations

An evaluation started in a world has an outcome and leaves a world behind,
`Eval.outcome` and `Eval.after`, whether it goes on or is interrupted.  The rules
here say what both are for each way of putting evaluations together.

`Eval.Steps R x` says that `R` relates every world to the one `x` leaves behind.  For
a preorder `R` the steps of the parts are the steps of the whole.
-/

import Stylesheet.Evaluation
import Mathlib.Order.Defs.Unbundled

namespace Stylesheet
namespace Eval

variable {α β : Type}

/-- What an evaluation started in a world comes to. -/
def outcome (x : Eval α) (w : World) : Except Interrupt α :=
  (x.run.run w).1

/-- The world that an evaluation started in a world leaves behind. -/
def after (x : Eval α) (w : World) : World :=
  (x.run.run w).2

/-- A run is an outcome and the world that is left. -/
theorem run_eq (x : Eval α) (w : World) : x.run.run w = (x.outcome w, x.after w) :=
  rfl

/-! ### Outcomes and worlds of the primitives -/

@[simp] theorem outcome_pure (a : α) (w : World) : (pure a : Eval α).outcome w = .ok a := rfl

@[simp] theorem after_pure (a : α) (w : World) : (pure a : Eval α).after w = w := rfl

@[simp] theorem outcome_throw (i : Interrupt) (w : World) :
    (throw i : Eval α).outcome w = .error i := rfl

@[simp] theorem after_throw (i : Interrupt) (w : World) : (throw i : Eval α).after w = w := rfl

/-- What follows is run in the world that the first part leaves, unless it is interrupted. -/
theorem run_bind (x : Eval α) (f : α → Eval β) (w : World) :
    (x >>= f).run.run w = match x.outcome w with
      | .ok a => (f a).run.run (x.after w)
      | .error i => (.error i, x.after w) := by
  simp only [outcome, after, ExceptT.run_bind, StateT.run_bind]
  generalize x.run.run w = r
  obtain ⟨o, w'⟩ := r
  cases o <;> rfl

/-- The whole comes to what the second part comes to, unless the first is interrupted. -/
theorem outcome_bind (x : Eval α) (f : α → Eval β) (w : World) :
    (x >>= f).outcome w = match x.outcome w with
      | .ok a => (f a).outcome (x.after w)
      | .error i => .error i := by
  rw [outcome, run_bind]
  cases x.outcome w <;> rfl

/-- The whole leaves the world of the second part, unless the first is interrupted. -/
theorem after_bind (x : Eval α) (f : α → Eval β) (w : World) :
    (x >>= f).after w = match x.outcome w with
      | .ok a => (f a).after (x.after w)
      | .error _ => x.after w := by
  rw [after, run_bind]
  cases x.outcome w <;> rfl

/-- A run goes on where the first part has come to an end. -/
theorem run_bind_of_ok {x : Eval α} (f : α → Eval β) {w w' : World} {a : α}
    (h : x.run.run w = (.ok a, w')) : (x >>= f).run.run w = (f a).run.run w' := by
  rw [run_bind, outcome, after, h]

/-- The outcome is that of what follows, once the first part has come to an end. -/
theorem outcome_bind_of_run {x : Eval α} {f : α → Eval β} {w w' : World} {a : α}
    (h : x.run.run w = (.ok a, w')) : (x >>= f).outcome w = (f a).outcome w' :=
  congrArg Prod.fst (run_bind_of_ok f h)

/-- A run stops where its first part is interrupted. -/
theorem run_bind_of_error {x : Eval α} (f : α → Eval β) {w w' : World} {i : Interrupt}
    (h : x.run.run w = (.error i, w')) : (x >>= f).run.run w = (.error i, w') := by
  rw [run_bind, outcome, after, h]

/-- An interrupt is caught in the world in which it has come. -/
theorem run_tryCatch (x : Eval α) (f : Interrupt → Eval α) (w : World) :
    (tryCatch x f : Eval α).run.run w = match x.outcome w with
      | .ok a => (.ok a, x.after w)
      | .error i => (f i).run.run (x.after w) := by
  simp only [outcome, after, tryCatch, tryCatchThe, MonadExceptOf.tryCatch, ExceptT.tryCatch,
    ExceptT.run, ExceptT.mk, StateT.run_bind]
  generalize StateT.run x w = r
  obtain ⟨o, w'⟩ := r
  cases o <;> rfl

/-- Places do not matter to what comes to an end. -/
theorem outcome_locate_eq_ok {span : Span} {x : Eval α} {w : World} {a : α} :
    (locate span x).outcome w = .ok a ↔ x.outcome w = .ok a := by
  rw [outcome, locate, run_tryCatch]
  cases x.outcome w with
  | ok b => exact Iff.rfl
  | error i => cases i <;> exact ⟨nofun, nofun⟩

/-- Runs that are the same are the same with a place. -/
theorem run_locate_congr (span : Span) {x y : Eval α} {w w' : World}
    (h : x.run.run w = y.run.run w') :
    (locate span x).run.run w = (locate span y).run.run w' := by
  rw [locate, locate, run_tryCatch, run_tryCatch, outcome, after, outcome, after, h]

/-- A failure gets a place where it leaves a node. -/
theorem run_locate_failure (span : Span) {x : Eval α} {w w' : World} {f : Failure}
    (h : x.run.run w = (.error (.failure f), w')) :
    (locate span x).run.run w = (.error (.failure (f.locate span)), w') := by
  rw [locate, run_tryCatch, outcome, after, h]
  rfl

/-- Places do not matter to the world. -/
theorem after_locate (span : Span) (x : Eval α) (w : World) :
    (locate span x).after w = x.after w := by
  rw [after, locate, run_tryCatch]
  cases x.outcome w with
  | ok b => rfl
  | error i => cases i <;> rfl

@[simp] theorem outcome_scopes (w : World) : scopes.outcome w = .ok w.scopes := rfl

@[simp] theorem after_scopes (w : World) : scopes.after w = w := rfl

@[simp] theorem outcome_modifyScopes (f : Scopes → Scopes) (w : World) :
    (modifyScopes f).outcome w = .ok () := rfl

@[simp] theorem after_modifyScopes (f : Scopes → Scopes) (w : World) :
    (modifyScopes f).after w = { w with scopes := f w.scopes } := rfl

@[simp] theorem outcome_newScope (p : ScopeId) (owns : Bool) (w : World) :
    (newScope p owns).outcome w = .ok w.scopes.all.size := rfl

@[simp] theorem after_newScope (p : ScopeId) (owns : Bool) (w : World) :
    (newScope p owns).after w =
      { w with scopes := (w.scopes.add (some p) none (some owns)).2 } := rfl

@[simp] theorem outcome_newGroup (build : GroupId → Node) (w : World) :
    (newGroup build).outcome w = .ok (w.groups.size, build w.groups.size) := rfl

@[simp] theorem after_newGroup (build : GroupId → Node) (w : World) :
    (newGroup build).after w = { w with groups := w.groups.push (build w.groups.size) } := rfl

@[simp] theorem outcome_record (keeper : Option ScopeId) (step : BufferStep) (w : World) :
    (record keeper step).outcome w = .ok () := rfl

@[simp] theorem after_record (keeper : Option ScopeId) (step : BufferStep) (w : World) :
    (record keeper step).after w = { w with history := w.history.push (keeper, step) } := rfl

@[simp] theorem outcome_note (level : Level) (stage : Stage) (text : String) (w : World) :
    (note level stage text).outcome w = .ok () := rfl

@[simp] theorem after_note (level : Level) (stage : Stage) (text : String) (w : World) :
    (note level stage text).after w =
      { w with log := w.log.push { level, stage, text } } := rfl

@[simp] theorem after_lift (x : Except Failure α) (w : World) : (lift x).after w = w := by
  cases x <;> rfl

/-! ### Worlds related by an evaluation -/

/-- `R` relates every world to the one that `x` leaves behind. -/
def Steps (R : World → World → Prop) (x : Eval α) : Prop :=
  ∀ w, R w (x.after w)

section Steps

variable {R : World → World → Prop} [IsPreorder World R]

/-- What does nothing takes no step. -/
theorem Steps.pure (a : α) : Steps R (Pure.pure a : Eval α) :=
  fun w => refl w

/-- The steps of two parts are the steps of the whole. -/
theorem Steps.bind {x : Eval α} {f : α → Eval β} (hx : Steps R x) (hf : ∀ a, Steps R (f a)) :
    Steps R (x >>= f) := fun w => by
  rw [after_bind]
  cases x.outcome w with
  | ok a => exact IsTrans.trans _ _ _ (hx w) (hf a _)
  | error i => exact hx w

/-- The steps for the elements of a list are the steps for the list. -/
theorem Steps.mapM {γ : Type} {f : γ → Eval α} {l : List γ} (h : ∀ c ∈ l, Steps R (f c)) :
    Steps R (l.mapM f) := by
  induction l with
  | nil => exact .pure _
  | cons c l ih =>
    rw [List.mapM_cons]
    exact (h c List.mem_cons_self).bind fun _ =>
      (ih fun d hd => h d (List.mem_cons_of_mem c hd)).bind fun _ => .pure _

end Steps

end Eval

namespace Evaluation

open Eval

/-! ### Loops -/

/-- The values that the variable of a loop over integers takes. -/
def counted (unit : String) (step : Int) : Nat → Int → List Value
  | 0, _ => []
  | n + 1, i => .number (.int i) unit :: counted unit step n (i + step)

/-- They are integers with the unit of the loop. -/
theorem exists_of_mem_counted {unit : String} {step : Int} {n : Nat} {first : Int} {v : Value}
    (h : v ∈ counted unit step n first) : ∃ i : Int, v = .number (.int i) unit := by
  induction n generalizing first with
  | zero => cases h
  | succ n ih =>
    rcases List.mem_cons.1 h with rfl | h
    · exact ⟨first, rfl⟩
    · exact ih h

/-- The loop goes through its rounds and puts together what they become. -/
theorem forRounds_eq_mapM (r : Recursion) (loop : ScopeId) (var unit : String)
    (body : List Node) (step : Int) (n : Nat) (first : Int) (found : List (List Node)) :
    forRounds r loop var unit body step n first found =
      (counted unit step n first).mapM (round r loop var body) >>= fun rounds =>
        pure (found.reverse ++ rounds).flatten := by
  induction n generalizing first found with
  | zero => simp [forRounds, counted]
  | succ n ih => simp [forRounds, counted, ih, List.mapM_cons]

/-! ### Invocations -/

/-- An invocation is what is done in the scope that is made for it. -/
theorem bind_bind {α : Type} (r : Recursion) (d : Definition) (args : List Value)
    (keywords : List (String × Value)) (f : ScopeId → Eval α) :
    (bind r d args keywords >>= f) = newScope d.scope true >>= fun b =>
      bindArguments r d b args keywords >>= fun _ => f b := by
  simp only [bind, bind_assoc, pure_bind]

/-! ### Buffers -/

/-- A name that has been resolved has its text. -/
theorem resolved_of_resolveName {r : Recursion} {i : ScopeId} {name name' : BufferName}
    {text : String} {w : World}
    (h : (resolveName r i name).outcome w = .ok (text, name')) : name'.resolved = some text := by
  unfold resolveName at h
  rw [outcome_bind] at h
  split at h
  · split at h
    · cases h
    · cases h
      rfl
  · cases h

/-- A new entry is only told of. -/
theorem outcome_noteNewEntry (k : ScopeId) (name : String) (w : World) :
    (noteNewEntry k name).outcome w = .ok () := by
  unfold noteNewEntry
  rw [outcome_bind, outcome_scopes]
  dsimp only
  split <;> rfl

/-- The notes that come after others, if there are only details among the new ones. -/
inductive Detailed (log : Log) : Log → Prop where
  | refl : Detailed log log
  | push {log' : Log} {n : Note} (h : Detailed log log') (detail : n.level = .debug) :
    Detailed log (log'.push n)

/-- A new entry is told of in a detail, and nothing else is done. -/
theorem after_noteNewEntry (k : ScopeId) (name : String) (w : World) :
    ∃ log, Detailed w.log log ∧ (noteNewEntry k name).after w = { w with log } := by
  unfold noteNewEntry
  rw [after_bind, outcome_scopes]
  dsimp only
  split
  · exact ⟨w.log, .refl, rfl⟩
  · exact ⟨_, .push .refl rfl, rfl⟩

/-- Nothing comes of a buffer that is only declared. -/
theorem outcome_declareOnly (k : ScopeId) (text : String) (w : World) :
    (declareOnly k text).outcome w = .ok [] := by
  simp only [declareOnly, outcome_bind, outcome_noteNewEntry, outcome_modifyScopes, outcome_note,
    outcome_pure]

/-- A buffer that is only declared has an entry then. -/
theorem after_declareOnly (k : ScopeId) (text : String) (w : World) :
    ∃ log, Detailed w.log log ∧ (declareOnly k text).after w =
      { w with scopes := w.scopes.declareBuffer k text, log } := by
  obtain ⟨log, details, noted⟩ := after_noteNewEntry k text w
  refine ⟨((declareOnly k text).after w).log, ?_, ?_⟩
  all_goals
    simp only [declareOnly, after_bind, outcome_noteNewEntry, noted, outcome_modifyScopes,
      after_modifyScopes, outcome_note, after_note, after_pure]
  exact .push details rfl

/-- What is captured is a group with the next number. -/
theorem outcome_capture (k : ScopeId) (text : String) (info : Info) (name : BufferName)
    (children : List Node) (w : World) :
    (capture k text info name children).outcome w =
      .ok [.plain { info with group := some w.groups.size } (.buffer name) children] := by
  simp only [capture, outcome_bind, outcome_newGroup, outcome_noteNewEntry,
    outcome_modifyScopes, outcome_scopes, outcome_record, outcome_note, outcome_pure]

/-- A group is kept under its number, in its entry and in the history. -/
theorem after_capture (k : ScopeId) (text : String) (info : Info) (name : BufferName)
    (children : List Node) (w : World) :
    ∃ log, Detailed w.log log ∧ (capture k text info name children).after w =
      { w with
        groups := w.groups.push
          (.plain { info with group := some w.groups.size } (.buffer name) children)
        scopes := w.scopes.appendBuffer k text w.groups.size
        history := w.history.push
          ((w.scopes.appendBuffer k text w.groups.size).bufferHolder? k text,
            .group w.groups.size name.resolved)
        log } := by
  obtain ⟨log, details, noted⟩ := after_noteNewEntry k text ((newGroup fun g =>
    Node.plain { info with group := some g } (.buffer name) children).after w)
  refine ⟨((capture k text info name children).after w).log, ?_, ?_⟩
  all_goals
    simp only [capture, after_bind, outcome_newGroup, outcome_noteNewEntry, noted,
      outcome_modifyScopes, after_modifyScopes, outcome_scopes, after_scopes, outcome_record,
      after_record, outcome_note, after_note, after_pure]
  · exact .push details rfl
  · rfl

/-- An unknown name is only told of. -/
theorem outcome_noteUnknown (s : Scopes) (k : ScopeId) (name : String) (w : World) :
    (noteUnknown s k name).outcome w = .ok () := by
  unfold noteUnknown
  split <;> rfl

/-- An unknown name is told of in a detail, and nothing else is done. -/
theorem after_noteUnknown (s : Scopes) (k : ScopeId) (name : String) (w : World) :
    ∃ log, Detailed w.log log ∧ (noteUnknown s k name).after w = { w with log } := by
  unfold noteUnknown
  split
  · exact ⟨w.log, .refl, rfl⟩
  · exact ⟨_, .push .refl rfl, rfl⟩

end Evaluation
end Stylesheet
