/-
# Where numbers stay in range

A computation with numbers has no result when an integer is needed and there is none, or
when an integer is too large for binary64.  Both take integers: where every number is
binary64, the operators, the texts of values and all built-in functions but those that
count or round (`Builtin.counts`) end with a value or with a diagnostic.

`Value.fair ints` says that a value holds no integers unless there are any, `ints`, and
`Failure.fair ints` that a failure is a diagnostic, or one of range where there are.
`Ends stops x fits` says that what is computed fits, or else is an error that `stops`.
-/

import Stylesheet.Value.Builtin
import Stylesheet.Value.Operation

namespace Stylesheet

open Number

/-- Whether a failure is one that a computation may end with: a diagnostic, and one of range
only where there are integers. -/
def Failure.fair (ints : Bool) : Failure → Bool
  | diagnostic _ => true
  | range _ => ints
  | _ => false

/-- Whether a number is binary64, unless there are integers. -/
def Number.Numeric.fair (ints : Bool) : Numeric → Bool
  | real _ => true
  | int _ => ints

namespace Value

mutual

/-- Whether every number in a value is binary64, unless there are integers. -/
def fair (ints : Bool) : Value → Bool
  | number x _ => x.fair ints
  | list vs _ => fairAll ints vs
  | _ => true

/-- Whether every number in some values is binary64, unless there are integers. -/
def fairAll (ints : Bool) : List Value → Bool
  | [] => true
  | v :: vs => v.fair ints && fairAll ints vs

end

variable {ints : Bool}

/-- A list is fair if everything in it is. -/
theorem fairAll_iff {vs : List Value} : fairAll ints vs ↔ ∀ v ∈ vs, v.fair ints := by
  induction vs with
  | nil => simp [fairAll]
  | cons v vs ih => simp [fairAll, ih]

/-- The items of a fair value are fair. -/
theorem fair_items {v : Value} (h : v.fair ints) : ∀ w ∈ v.items, w.fair ints := by
  cases v with
  | null => simp [items]
  | list vs s => exact fairAll_iff.1 h
  | _ => simpa [items] using h

end Value

variable {ε α β : Type} {ints : Bool} {stops : ε → Prop} {fits : α → Prop} {fits' : β → Prop}

/-- What is computed fits, and an error is one that stops. -/
inductive Ends (stops : ε → Prop) : Except ε α → (fits : α → Prop) → Prop
  | ok {fits : α → Prop} {a : α} (h : fits a) : Ends stops (.ok a) fits
  | error {fits : α → Prop} {e : ε} (h : stops e) : Ends stops (.error e) fits

namespace Ends

/-- What fits may be said in weaker words. -/
theorem mono {x : Except ε α} {fits' : α → Prop} (hx : Ends stops x fits)
    (h : ∀ a, fits a → fits' a) : Ends stops x fits' := by
  cases hx with
  | ok ha => exact .ok (h _ ha)
  | error he => exact .error he

/-- How something ends may be said without what it comes to. -/
theorem any {x : Except ε α} (hx : Ends stops x fits) : Ends stops x fun _ => True :=
  hx.mono fun _ _ => trivial

/-- What follows an end that fits ends as it may. -/
theorem bind {x : Except ε α} {f : α → Except ε β} (hx : Ends stops x fits)
    (hf : ∀ a, fits a → Ends stops (f a) fits') : Ends stops (x >>= f) fits' := by
  cases hx with
  | ok ha => exact hf _ ha
  | error he => exact .error he

/-- What follows something of which only the errors matter. -/
theorem after {x : Except ε α} {f : α → Except ε β} (hx : Ends stops x fun _ => True)
    (hf : ∀ a, Ends stops (f a) fits') : Ends stops (x >>= f) fits' :=
  hx.bind fun a _ => hf a

/-- Of what is computed, only the errors matter. -/
theorem done {a : α} : Ends stops (.ok a) fun _ => True :=
  .ok trivial

end Ends

/-- A computation that fails with a diagnostic, or for its range where there are integers. -/
abbrev Fair (ints : Bool) (x : Except Failure α) (fits : α → Prop) : Prop :=
  Ends (fun f => f.fair ints) x fits

/-- A numeric computation that fails only where there are integers. -/
abbrev InRange (ints : Bool) (x : Except RangeError α) (fits : α → Prop) : Prop :=
  Ends (fun _ => ints) x fits

/-- What is in range for numbers is fair as a computation of a value. -/
theorem InRange.lift {x : Except RangeError α} (hx : InRange ints x fits) :
    Fair ints (liftRange x) fits := by
  cases hx with
  | ok h => exact .ok h
  | error h => exact .error h

/-- A diagnostic is a fair end. -/
theorem Fair.ofCause (c : Cause) : Fair ints (.error (.ofCause c) : Except Failure α) fits :=
  Ends.error rfl

namespace Number.Numeric

variable {x y : Numeric}

/-- Where there are integers, a number may be out of range. -/
theorem inRange_inRange (x : Binary64) (h : ints) : InRange ints (inRange x) fun _ => True := by
  cases x with
  | infinite s => exact .error h
  | nan | finite => exact .done

/-- Where there are integers, one may be too large for a real number. -/
theorem inRange_realOfInt {i : Int} (h : ints) : InRange ints (realOfInt i) fun _ => True :=
  inRange_inRange _ h

/-- Nothing but an integer may be too large for a real number. -/
theorem inRange_toReal (h : x.fair ints) : InRange ints x.toReal fun _ => True := by
  cases x with
  | real a => exact .done
  | int i => exact inRange_realOfInt h

/-- An operation on fair numbers gives a fair number, and overflows for integers only. -/
theorem inRange_lift (onInt : Int → Int → Int) (onReal : Binary64 → Binary64 → Binary64)
    (hx : x.fair ints) (hy : y.fair ints) :
    InRange ints (lift onInt onReal x y) fun z => z.fair ints := by
  unfold lift
  split
  · exact Ends.ok hx
  · exact (inRange_toReal hx).after fun _ => (inRange_toReal hy).after fun _ => Ends.ok rfl

/-- A quotient of fair numbers is fair, and overflows for integers only. -/
theorem inRange_div (hx : x.fair ints) (hy : y.fair ints) :
    InRange ints (x.div y) fun z => z.fair ints := by
  unfold div
  split
  · exact (inRange_inRange _ hx).after fun _ => Ends.ok rfl
  · exact (inRange_toReal hx).after fun _ => (inRange_toReal hy).after fun _ => Ends.ok rfl

/-- Where there are integers, what is rounded may be too large or no number. -/
theorem inRange_toWhole (direction : Direction) (h : ints) :
    InRange ints (x.toWhole direction) fun _ => True := by
  unfold toWhole
  split
  · exact .done
  · exact .error h
  · exact .error h
  · exact .done

/-- Asked for the integer that it is, nothing but an integer may overflow. -/
theorem inRange_asWhole (h : x.fair ints) : InRange ints x.asWhole fun _ => True := by
  cases x with
  | real a => exact .done
  | int i => exact (inRange_realOfInt h).after fun _ => Ends.done

/-- Nothing but an integer may be too large for a text. -/
theorem inRange_text (h : x.fair ints) : InRange ints x.text fun _ => True := by
  unfold text
  split
  · exact .done
  · split
    · exact .done
    · exact (inRange_realOfInt h).after fun _ => Ends.done

/-- The opposite of a fair number is fair. -/
theorem fair_neg (h : x.fair ints) : x.neg.fair ints := by
  cases x <;> exact h

/-- The absolute value of a fair number is fair. -/
theorem fair_abs (h : x.fair ints) : x.abs.fair ints := by
  cases x <;> exact h

end Number.Numeric

/-! ### Texts and operators -/

namespace Value

variable {v a b : Value}

mutual

/-- A fair value has a text, unless an integer in it is too large. -/
theorem inRange_render (quotes : Bool) (v : Value) (h : v.fair ints) :
    InRange ints (v.render quotes) fun _ => True := by
  match v with
  | .null | .bool _ | .string .. => exact .done
  | .number x u => exact (Numeric.inRange_text h).after fun _ => Ends.done
  | .list vs s => exact (inRange_renderItems quotes vs h).after fun _ => Ends.done

/-- Fair values have texts, unless an integer in them is too large. -/
theorem inRange_renderItems (quotes : Bool) (vs : List Value) (h : fairAll ints vs) :
    InRange ints (renderItems quotes vs) fun _ => True := by
  match vs with
  | [] => exact .done
  | v :: vs =>
    rw [fairAll, Bool.and_eq_true] at h
    have others := inRange_renderItems quotes vs h.2
    cases v with
    | null => exact others
    | _ => exact (inRange_render quotes _ h.1).after fun _ => others.after fun _ => Ends.done

end

/-- A fair value has a CSS text, unless an integer in it is too large. -/
theorem inRange_css (h : v.fair ints) : InRange ints v.css fun _ => True :=
  inRange_render true v h

/-- A fair value has a plain text, unless an integer in it is too large. -/
theorem inRange_plain (h : v.fair ints) : InRange ints v.plain fun _ => True :=
  inRange_render false v h

/-- Units are joined, or refused. -/
theorem fair_joinUnits (u v symbol : String) : Fair ints (joinUnits u v symbol) fun _ => True := by
  unfold joinUnits
  split
  · exact Fair.ofCause _
  · exact .done

section

variable (ha : a.fair ints) (hb : b.fair ints)

include ha hb

/-- Two fair values have their CSS texts, unless an integer in them is too large. -/
theorem fair_cssBoth : Fair ints (cssBoth a b) fun _ => True :=
  (inRange_css ha).lift.after fun _ => (inRange_css hb).lift.after fun _ => Ends.done

/-- Fair values are joined to a fair one. -/
theorem fair_joinTexts (symbol : String) :
    Fair ints (joinTexts a symbol b) fun v => v.fair ints :=
  (fair_cssBoth ha hb).after fun _ => Ends.ok rfl

/-- An operation that is refused ends fairly. -/
theorem fair_refuse (operation : String) :
    Fair ints (refuse a operation b) fun v => v.fair ints :=
  (fair_cssBoth ha hb).after fun _ => Fair.ofCause _

/-- Units that are refused end fairly. -/
theorem fair_refuseUnits (symbol : String) :
    Fair ints (refuseUnits a symbol b) fun v => v.fair ints :=
  (fair_cssBoth ha hb).after fun _ => Fair.ofCause _

/-- The sum of fair values is fair. -/
theorem fair_plus : Fair ints (a.plus b) fun v => v.fair ints := by
  unfold plus
  split
  · exact (Numeric.inRange_lift _ _ ha hb).lift.bind fun z hz =>
      (fair_joinUnits _ _ _).after fun _ => Ends.ok hz
  · exact (inRange_plain hb).lift.after fun _ => Ends.ok rfl
  · exact (inRange_css ha).lift.after fun _ => Ends.ok rfl
  · exact fair_joinTexts ha hb _

/-- The difference of fair values is fair. -/
theorem fair_minus : Fair ints (a.minus b) fun v => v.fair ints := by
  unfold minus
  split
  · exact (Numeric.inRange_lift _ _ ha hb).lift.bind fun z hz =>
      (fair_joinUnits _ _ _).after fun _ => Ends.ok hz
  · exact fair_joinTexts ha hb _

/-- The product of fair values is fair. -/
theorem fair_times : Fair ints (a.times b) fun v => v.fair ints := by
  unfold times
  split
  · split
    · exact fair_refuseUnits ha hb _
    · exact (Numeric.inRange_lift _ _ ha hb).lift.bind fun z hz => Ends.ok hz
  · exact fair_refuse ha hb _

/-- The quotient of fair values is fair. -/
theorem fair_dividedBy : Fair ints (a.dividedBy b) fun v => v.fair ints := by
  unfold dividedBy
  split
  · split
    · exact Fair.ofCause _
    · split
      · exact fair_refuseUnits ha hb _
      · exact (Numeric.inRange_div ha hb).lift.bind fun z hz => Ends.ok hz
  · exact fair_joinTexts ha hb _

/-- The remainder of fair values is fair. -/
theorem fair_modulo : Fair ints (a.modulo b) fun v => v.fair ints := by
  unfold modulo
  split
  · split
    · exact Fair.ofCause _
    · exact (Numeric.inRange_lift _ _ ha hb).lift.bind fun z hz =>
        (fair_joinUnits _ _ _).after fun _ => Ends.ok hz
  · exact fair_refuse ha hb _

/-- A comparison of fair values is fair. -/
theorem fair_compare (symbol : String) (holds : Numeric → Numeric → Bool) :
    Fair ints (compare symbol holds a b) fun v => v.fair ints := by
  unfold compare
  split
  · exact (fair_joinUnits _ _ _).after fun _ => Ends.ok rfl
  · exact (inRange_css hb).lift.after fun _ => Fair.ofCause _
  · exact (inRange_css ha).lift.after fun _ => Fair.ofCause _

/-- **An operator keeps to binary64**, and its failures are diagnostics. -/
theorem fair_operate (op : BinaryOp) : Fair ints (operate op a b) fun v => v.fair ints := by
  cases op with
  | or =>
    refine Ends.ok ?_
    split
    · exact ha
    · exact hb
  | and =>
    refine Ends.ok ?_
    split
    · exact hb
    · exact ha
  | eq | ne => exact Ends.ok rfl
  | lt | gt | le | ge => exact fair_compare ha hb _ _
  | add => exact fair_plus ha hb
  | sub => exact fair_minus ha hb
  | mul => exact fair_times ha hb
  | div => exact fair_dividedBy ha hb
  | mod => exact fair_modulo ha hb
  | unknown s => exact Fair.ofCause _

end

/-- A sign or a negation makes a fair value of one. -/
theorem fair_operateUnary (op : UnaryOp) (h : v.fair ints) :
    Fair ints (operateUnary op v) fun v => v.fair ints := by
  unfold operateUnary
  split
  · exact Ends.ok rfl
  · exact Ends.ok (Numeric.fair_neg h)
  · exact Ends.ok h
  · exact (inRange_css h).lift.after fun _ => Ends.ok rfl

end Value

/-! ### Built-in functions -/

namespace Builtin

/-- Whether a function counts or rounds: it gives an integer, or needs one. -/
def counts : Builtin → Bool
  | length | nth | round | ceil | floor => true
  | _ => false

variable {v a b : Value}

/-- The number of an argument is fair if the argument is. -/
theorem fair_numberOf (fn : Builtin) (h : v.fair ints) :
    Fair ints (numberOf fn v) fun p => p.1.fair ints := by
  unfold numberOf
  split
  · exact .ok h
  · exact (Value.inRange_css h).lift.after fun _ => Fair.ofCause _

/-- The text of an argument is there, or refused fairly. -/
theorem fair_stringOf (fn : Builtin) (h : v.fair ints) :
    Fair ints (stringOf fn v) fun _ => True := by
  unfold stringOf
  split
  · exact .done
  · exact (Value.inRange_css h).lift.after fun _ => Fair.ofCause _

/-- What a fair number is rounded to is fair, where there are integers. -/
theorem fair_wholeOf (fn : Builtin) (direction : Numeric.Direction) (known : ints)
    (h : v.fair ints) : Fair ints (wholeOf fn direction v) fun v => v.fair ints :=
  (fair_numberOf fn h).bind fun _ _ =>
    (Numeric.inRange_toWhole direction known).lift.after fun _ => Ends.ok known

/-- An index out of bounds is a fair failure, where there are integers. -/
theorem fair_outOfBounds (index : Int) (length : Nat) (known : ints) :
    (outOfBounds index length).fair ints := by
  unfold outOfBounds
  split
  · rfl
  · exact known

/-- An item of a fair list is fair, where there are integers. -/
theorem fair_item (known : ints) (ha : a.fair ints) (hb : b.fair ints) :
    Fair ints (item a b) fun v => v.fair ints := by
  refine (fair_numberOf nth hb).bind fun p _ =>
    (Numeric.inRange_toWhole .toZero known).lift.after fun i => ?_
  dsimp only
  split
  · exact .error (fair_outOfBounds _ _ known)
  · split
    · exact Ends.ok (Value.fair_items ha _ (List.mem_of_getElem? ‹_›))
    · exact .error (fair_outOfBounds _ _ known)

/-- Fair lists are joined to a fair one. -/
theorem fair_join (ha : a.fair ints) (hb : b.fair ints) (s : Separator) :
    (Value.list (a.items ++ b.items) s).fair ints :=
  Value.fairAll_iff.2 fun v hv =>
    (List.mem_append.1 hv).elim (Value.fair_items ha v) (Value.fair_items hb v)

/-- A hundred is in range. -/
theorem isOk_hundred : (Numeric.realOfInt 100).isOk := by
  decide +kernel

/-- A fair number can be taken a hundred times. -/
theorem inRange_hundred {x : Numeric} (h : x.fair ints) :
    InRange ints (x.mul (.int 100)) fun z => z.fair ints := by
  cases x with
  | int i => exact .ok h
  | real a =>
    simp only [Numeric.mul, Numeric.lift, Numeric.toReal]
    cases e : Numeric.realOfInt 100 with
    | ok y => exact .ok rfl
    | error r =>
      have ok := isOk_hundred
      simp [e, Except.isOk, Except.toBool] at ok

/-- **A built-in function that does not count keeps to binary64**, and its failures are
diagnostics. -/
theorem fair_apply (fn : Builtin) (known : fn.counts → ints) {args : List Value}
    (h : ∀ v ∈ args, v.fair ints) {x : Except Failure Value} (e : fn.apply args = some x) :
    Fair ints x fun v => v.fair ints := by
  unfold apply at e
  split at e <;> cases e <;>
    simp only [List.mem_cons, List.not_mem_nil, or_false, forall_eq_or_imp, forall_eq] at h
  case h_1 c a b =>
    refine .ok ?_
    split
    · exact h.2.1
    · exact h.2.2
  case h_2 | h_3 => exact (fair_stringOf _ h).after fun _ => .ok rfl
  case h_4 => exact .ok (known rfl)
  case h_5 => exact fair_item (known rfl) h.1 h.2
  case h_6 => exact .ok (fair_join h.1 h.2 _)
  case h_7 => exact (fair_stringOf _ h.2.2).after fun _ => .ok (fair_join h.1 h.2.1 _)
  case h_8 => exact .ok rfl
  case h_9 | h_10 => exact (fair_numberOf _ h).any.after fun _ => .ok rfl
  case h_11 v =>
    refine (fair_numberOf _ h).bind fun (y, u) hy => ?_
    dsimp only
    split
    · exact (Value.inRange_css h).lift.after fun _ => Fair.ofCause _
    · exact (inRange_hundred hy).lift.bind fun z hz => .ok hz
  case h_12 | h_13 | h_14 => exact fair_wholeOf _ _ (known rfl) h
  case h_15 => exact (fair_numberOf _ h).bind fun (y, u) hy => .ok (Numeric.fair_abs hy)

end Builtin
end Stylesheet
