/-
# Matching

`Peg.run` matches a parsing expression at a cursor.  The fuel bounds the depth
of the recursion; a match that runs out of it is `exhausted`, which is neither a
success nor a failure.  At the end of the text nothing is attempted for a
repetition or an option.

`Peg.attempt` matches as well and tells how far it got: the fewest characters that
were left at a place where some rule did not match, every attempt counted, also
those inside choices, options and look-aheads.  A rule that is only a part of
another one does not count.

Both go by `Peg.Rules`: the expressions of the rules, and answers that are known
beforehand, so that a rule which several alternatives try at the same place need not
be matched there again.  `Peg.table` answers a question for all places of a text,
from the end to the start, each with the answers for the later places at hand.
-/

import Stylesheet.Peg.Basic

namespace Stylesheet

/-- The outcome of a match. -/
inductive Outcome (α : Type) where
  /-- A value was read up to a cursor. -/
  | ok (value : α) (next : Cursor)
  /-- The expression does not match here. -/
  | fail
  /-- The fuel is used up. -/
  | exhausted
  deriving Repr

namespace Outcome

variable {α β : Type}

/-- The outcome with its value transformed. -/
def map (f : α → β) : Outcome α → Outcome β
  | ok a c => ok (f a) c
  | fail => fail
  | exhausted => exhausted

/-- Goes on after a success. -/
def andThen (o : Outcome α) (f : α → Cursor → Outcome β) : Outcome β :=
  match o with
  | ok a c => f a c
  | fail => fail
  | exhausted => exhausted

/-- Goes on after a failure. -/
def orElse (o : Outcome α) (f : Unit → Outcome α) : Outcome α :=
  match o with
  | fail => f ()
  | o => o

end Outcome

namespace Peg

/-- A match with how far it got. -/
structure Attempt (α : Type) where
  /-- The outcome. -/
  outcome : Outcome α
  /-- The fewest characters left where a rule did not match, if one did not. -/
  left : Option Nat := none
  deriving Repr

/-- The lesser of two numbers of characters left, where there may be none. -/
def nearer : Option Nat → Option Nat → Option Nat
  | some m, some n => some (min m n)
  | some m, none => some m
  | none, n => n

namespace Attempt

variable {α β : Type}

/-- The attempt with its value transformed. -/
def map (f : α → β) (a : Attempt α) : Attempt β :=
  { outcome := a.outcome.map f, left := a.left }

/-- The attempt after another one that got to `left`. -/
def after (left : Option Nat) (a : Attempt α) : Attempt α :=
  { a with left := nearer left a.left }

/-- The attempt of a rule at a place where `here` characters are left. -/
def ofRule (here : Nat) (a : Attempt α) : Attempt α :=
  match a.outcome with
  | .fail => a.after (some here)
  | _ => a

end Attempt

/-- What a match goes by. -/
structure Rules (R : Type → Type) where
  /-- The expression of a rule. -/
  body : {α : Type} → R α → Peg R α
  /-- Whether a rule is only a part of another one. -/
  isPart : {α : Type} → R α → Bool := fun _ => false
  /-- The outcome of a rule at a place, if it is known beforehand. -/
  known : {α : Type} → R α → Cursor → Option (Outcome α) := fun _ _ => none
  /-- The attempt of the expression of a rule at a place, if it is known beforehand. -/
  tried : {α : Type} → R α → Cursor → Option (Attempt α) := fun _ _ => none

variable {R : Type → Type} {α : Type}

/-- Matches `p` at a cursor. -/
def run (rules : Rules R) : {α : Type} → Nat → Peg R α → Cursor → Outcome α
  | _, 0, _, _ => .exhausted
  | _, fuel + 1, p, c =>
    match p with
    | .eof => if c.rest.isEmpty then .ok () c else .fail
    | .lit text =>
      let t := text.toList
      if t.isPrefixOf c.rest then .ok () (c.skip t.length) else .fail
    | .char q =>
      match c.rest with
      | x :: _ => if q x then .ok x (c.skip 1) else .fail
      | [] => .fail
    | .span q =>
      let taken := c.rest.takeWhile q
      .ok taken (c.skip taken.length)
    | .call r =>
      match rules.known r c with
      | some o => o
      | none => run rules fuel (rules.body r) c
    | .seq p q =>
      (run rules fuel p c).andThen fun a d => (run rules fuel q d).map fun b => (a, b)
    | .alt p q => (run rules fuel p c).orElse fun _ => run rules fuel q c
    | .star p =>
      if c.rest.isEmpty then .ok [] c
      else
        match run rules fuel p c with
        | .ok a d => (run rules fuel (.star p) d).map (a :: ·)
        | .fail => .ok [] c
        | .exhausted => .exhausted
    | .opt p =>
      if c.rest.isEmpty then .ok none c
      else
        match run rules fuel p c with
        | .ok a d => .ok (some a) d
        | .fail => .ok none c
        | .exhausted => .exhausted
    | .no p =>
      match run rules fuel p c with
      | .ok _ _ => .fail
      | .fail => .ok () c
      | .exhausted => .exhausted
    | .map f p => (run rules fuel p c).map f
    | .located p =>
      (run rules fuel p c).map fun a => ({ file := c.file, line := c.line }, a)

/-- Matches `p` at a cursor and tells how far it got. -/
def attempt (rules : Rules R) : {α : Type} → Nat → Peg R α → Cursor → Attempt α
  | _, 0, _, _ => { outcome := .exhausted }
  | _, fuel + 1, p, c =>
    match p with
    | .eof => { outcome := run rules 1 .eof c }
    | .lit text => { outcome := run rules 1 (.lit text) c }
    | .char q => { outcome := run rules 1 (.char q) c }
    | .span q => { outcome := run rules 1 (.span q) c }
    | .call r =>
      let a :=
        match rules.tried r c with
        | some a => a
        | none => attempt rules fuel (rules.body r) c
      if rules.isPart r then a else a.ofRule c.left
    | .seq p q =>
      let a := attempt rules fuel p c
      match a.outcome with
      | .ok x d => ((attempt rules fuel q d).map fun y => (x, y)).after a.left
      | .fail => { a with outcome := .fail }
      | .exhausted => { a with outcome := .exhausted }
    | .alt p q =>
      let a := attempt rules fuel p c
      match a.outcome with
      | .fail => (attempt rules fuel q c).after a.left
      | _ => a
    | .star p =>
      if c.rest.isEmpty then { outcome := .ok [] c }
      else
        let a := attempt rules fuel p c
        match a.outcome with
        | .ok x d => ((attempt rules fuel (.star p) d).map (x :: ·)).after a.left
        | .fail => { a with outcome := .ok [] c }
        | .exhausted => { a with outcome := .exhausted }
    | .opt p =>
      if c.rest.isEmpty then { outcome := .ok none c }
      else
        let a := attempt rules fuel p c
        match a.outcome with
        | .ok x d => { a with outcome := .ok (some x) d }
        | .fail => { a with outcome := .ok none c }
        | .exhausted => { a with outcome := .exhausted }
    | .no p =>
      let a := attempt rules fuel p c
      match a.outcome with
      | .ok _ _ => { a with outcome := .fail }
      | .fail => { a with outcome := .ok () c }
      | .exhausted => { a with outcome := .exhausted }
    | .map f p => (attempt rules fuel p c).map f
    | .located p =>
      (attempt rules fuel p c).map fun a => ({ file := c.file, line := c.line }, a)

/-- The answers for the places from the end of the text back to a cursor, each
found with those for the later places; the answer for a place where `n` characters
are left is the `n`th. -/
def table {β : Type} (answer : (later : Array β) → Cursor → β) (c : Cursor) : Array β :=
  c.places.foldl (fun later d => later.push (answer later d)) #[]

end Peg
end Stylesheet
