/-
# How computations with values fail

Whatever is computed with values fails for a cause whose place is not known there, or for
the range of a number (`Failure.Raised`): operators (`Value.raises_operate`) and built-in
functions (`Builtin.raises_apply`) know nothing of the style sheet that they are in.
-/

import Stylesheet.Proofs.Value.Range

namespace Stylesheet

open Number

/-- A failure that does not know its place. -/
inductive Failure.Raised : Failure → Prop
  | cause (c : Cause) : Raised (.ofCause c)
  | range (e : RangeError) : Raised (.range e)
  /-- A node without the expression that it has to have. -/
  | missing : Raised .missingExpression

/-- A computation whose failures do not know their place. -/
def Raises {α : Type} (x : Except Failure α) : Prop :=
  Ends Failure.Raised x fun _ => True

namespace Raises

variable {α β : Type}

/-- What ends well raises nothing. -/
theorem ok {a : α} : Raises (.ok a) :=
  Ends.done

/-- A failure that may be raised may be raised here. -/
theorem error {f : Failure} (h : f.Raised) : Raises (.error f : Except Failure α) :=
  Ends.error h

/-- Every cause may be raised. -/
theorem ofCause {c : Cause} : Raises (.error (.ofCause c) : Except Failure α) :=
  .error (.cause c)

/-- A computation raises what its parts raise. -/
theorem bind {x : Except Failure α} {f : α → Except Failure β} (hx : Raises x)
    (hf : ∀ a, Raises (f a)) : Raises (x >>= f) :=
  Ends.after hx hf

/-- A range error may be raised. -/
theorem liftRange (x : Except RangeError α) : Raises (liftRange x) := by
  cases x with
  | ok a => exact .ok
  | error e => exact .error (.range e)

/-- A number and what is computed from it. -/
theorem liftRange_bind {x : Except RangeError α} {f : α → Except Failure β}
    (hf : ∀ a, Raises (f a)) : Raises (Stylesheet.liftRange x >>= f) :=
  (liftRange x).bind hf

end Raises

namespace Value

variable (a b : Value)

/-- Units that do not go together are refused with a cause. -/
theorem raises_joinUnits (u v symbol : String) : Raises (joinUnits u v symbol) := by
  unfold joinUnits
  split
  · exact .ofCause
  · exact .ok

/-- Two texts for an operation fail only at the range of a number. -/
theorem raises_cssBoth : Raises (cssBoth a b) :=
  .liftRange_bind fun _ => .liftRange_bind fun _ => .ok

/-- Texts are joined, or a number in them is out of range. -/
theorem raises_joinTexts (symbol : String) : Raises (joinTexts a symbol b) :=
  (raises_cssBoth a b).bind fun _ => .ok

/-- An operation that is refused is refused with a cause. -/
theorem raises_refuse (operation : String) : Raises (refuse a operation b) :=
  (raises_cssBoth a b).bind fun _ => .ofCause

/-- Units that are refused are refused with a cause. -/
theorem raises_refuseUnits (symbol : String) : Raises (refuseUnits a symbol b) :=
  (raises_cssBoth a b).bind fun _ => .ofCause

/-- A sum fails for its operands or for the range of a number. -/
theorem raises_plus : Raises (a.plus b) := by
  unfold plus
  split
  · exact .liftRange_bind fun _ => (raises_joinUnits _ _ _).bind fun _ => .ok
  · exact .liftRange_bind fun _ => .ok
  · exact .liftRange_bind fun _ => .ok
  · exact raises_joinTexts _ _ _

/-- A difference fails for its operands or for the range of a number. -/
theorem raises_minus : Raises (a.minus b) := by
  unfold minus
  split
  · exact .liftRange_bind fun _ => (raises_joinUnits _ _ _).bind fun _ => .ok
  · exact raises_joinTexts _ _ _

/-- A product fails for its operands or for the range of a number. -/
theorem raises_times : Raises (a.times b) := by
  unfold times
  split
  · split
    · exact raises_refuseUnits _ _ _
    · exact .liftRange_bind fun _ => .ok
  · exact raises_refuse _ _ _

/-- A quotient fails for its operands or for the range of a number. -/
theorem raises_dividedBy : Raises (a.dividedBy b) := by
  unfold dividedBy
  split
  · split
    · exact .ofCause
    · split
      · exact raises_refuseUnits _ _ _
      · exact .liftRange_bind fun _ => .ok
  · exact raises_joinTexts _ _ _

/-- A remainder fails for its operands or for the range of a number. -/
theorem raises_modulo : Raises (a.modulo b) := by
  unfold modulo
  split
  · split
    · exact .ofCause
    · exact .liftRange_bind fun _ => (raises_joinUnits _ _ _).bind fun _ => .ok
  · exact raises_refuse _ _ _

/-- A comparison fails for its operands or for the range of a number. -/
theorem raises_compare (symbol : String) (holds : Numeric → Numeric → Bool) :
    Raises (compare symbol holds a b) := by
  unfold compare
  split
  · exact (raises_joinUnits _ _ _).bind fun _ => .ok
  · exact .liftRange_bind fun _ => .ofCause
  · exact .liftRange_bind fun _ => .ofCause

/-- **An operator does not know where it is.** -/
theorem raises_operate (op : BinaryOp) : Raises (operate op a b) := by
  cases op with
  | or | and | eq | ne => exact .ok
  | lt | gt | le | ge => exact raises_compare _ _ _ _
  | add => exact raises_plus a b
  | sub => exact raises_minus a b
  | mul => exact raises_times a b
  | div => exact raises_dividedBy a b
  | mod => exact raises_modulo a b
  | unknown s => exact .ofCause

/-- A sign or a negation fails for its operand or for the range of a number. -/
theorem raises_operateUnary (op : UnaryOp) : Raises (operateUnary op a) := by
  unfold operateUnary
  split
  · exact .ok
  · exact .ok
  · exact .ok
  · exact .liftRange_bind fun _ => .ok

end Value

namespace Builtin

variable (fn : Builtin) (v : Value)

/-- An argument that is no number is refused with a cause. -/
theorem raises_numberOf : Raises (numberOf fn v) := by
  unfold numberOf
  split
  · exact .ok
  · exact .liftRange_bind fun _ => .ofCause

/-- An argument that is no string is refused with a cause. -/
theorem raises_stringOf : Raises (stringOf fn v) := by
  unfold stringOf
  split
  · exact .ok
  · exact .liftRange_bind fun _ => .ofCause

/-- A number that is rounded is refused with a cause, or out of range. -/
theorem raises_wholeOf (direction : Numeric.Direction) : Raises (wholeOf fn direction v) :=
  (raises_numberOf fn v).bind fun _ => .liftRange_bind fun _ => .ok

/-- An index out of bounds is raised without a place. -/
theorem raised_outOfBounds (index : Int) (length : Nat) : (outOfBounds index length).Raised := by
  unfold outOfBounds
  split
  · exact .cause _
  · exact .range _

/-- Items are looked up, or their index is refused. -/
theorem raises_item (list index : Value) : Raises (item list index) := by
  refine (raises_numberOf nth index).bind fun _ => .liftRange_bind fun i => ?_
  dsimp only
  split
  · exact .error (raised_outOfBounds _ _)
  · split
    · exact .ok
    · exact .error (raised_outOfBounds _ _)

/-- **A built-in function does not know where it is.** -/
theorem raises_apply {args : List Value} {x : Except Failure Value}
    (applied : fn.apply args = some x) : Raises x := by
  unfold apply at applied
  split at applied <;> cases applied
  case h_1 | h_4 | h_6 | h_8 => exact .ok
  case h_2 | h_3 | h_7 => exact (raises_stringOf _ _).bind fun _ => .ok
  case h_5 => exact raises_item _ _
  case h_9 | h_10 | h_15 => exact (raises_numberOf _ _).bind fun _ => .ok
  case h_11 =>
    refine (raises_numberOf _ _).bind fun _ => ?_
    dsimp only
    split
    · exact .liftRange_bind fun _ => .ofCause
    · exact .liftRange_bind fun _ => .ok
  case h_12 | h_13 | h_14 => exact raises_wholeOf _ _ _

end Builtin
end Stylesheet
