/-
# Parsing expressions

A grammar is data: `Peg R α` is a parsing expression that reads a value of type
`α` and may call the rules of a family `R`, where a rule of `R β` reads a `β`.
Choice is ordered, a repetition takes as much as it can and never gives back,
and a look-ahead reads nothing.  Text leaves are single characters, fixed texts
and runs of characters of a class.

A `Cursor` is a place in a text: the file, the line, the characters that are left
and their number.  `Cursor.skip` goes past a run of characters and counts the
lines in it; `Cursor.places` are all the places from the end of the text back to
a cursor.
-/

import Stylesheet.Diagnostic

namespace Stylesheet

/-- A place in a text. -/
structure Cursor where
  /-- The file that the text is from. -/
  file : String
  /-- The line, from 1. -/
  line : Nat
  /-- The characters from here to the end. -/
  rest : List Char
  /-- How many characters are left. -/
  left : Nat
  /-- The number is the right one. -/
  left_eq : left = rest.length
  deriving DecidableEq, Repr

namespace Cursor

/-- The start of a text. -/
def start (file : String) (text : List Char) : Cursor :=
  { file, line := 1, rest := text, left := text.length, left_eq := rfl }

/-- The place after `n` characters. -/
def skip (c : Cursor) (n : Nat) : Cursor where
  file := c.file
  line := c.line + (c.rest.take n).count '\n'
  rest := c.rest.drop n
  left := c.left - n
  left_eq := by simp [c.left_eq]

/-- The places up to `n` characters after a cursor, the last one first, before
those in `found`. -/
def placesFrom : (n : Nat) → Cursor → (found : List Cursor) → List Cursor
  | 0, c, found => c :: found
  | n + 1, c, found => placesFrom n (c.skip 1) (c :: found)

/-- The end of the text and every place before it, back to a cursor. -/
def places (c : Cursor) : List Cursor :=
  placesFrom c.left c []

end Cursor

/-- A parsing expression over the rules `R`. -/
inductive Peg (R : Type → Type) : Type → Type 1 where
  /-- The end of the text. -/
  | eof : Peg R Unit
  /-- A fixed text. -/
  | lit (text : String) : Peg R Unit
  /-- One character of a class. -/
  | char (p : Char → Bool) : Peg R Char
  /-- The longest run, perhaps empty, of characters of a class. -/
  | span (p : Char → Bool) : Peg R (List Char)
  /-- A rule. -/
  | call {α : Type} (r : R α) : Peg R α
  /-- One after the other. -/
  | seq {α β : Type} (p : Peg R α) (q : Peg R β) : Peg R (α × β)
  /-- The first, and the second only if the first does not match. -/
  | alt {α : Type} (p q : Peg R α) : Peg R α
  /-- As often as it matches. -/
  | star {α : Type} (p : Peg R α) : Peg R (List α)
  /-- Once if it matches. -/
  | opt {α : Type} (p : Peg R α) : Peg R (Option α)
  /-- Nothing is read, and it must not match here. -/
  | no {α : Type} (p : Peg R α) : Peg R Unit
  /-- The value read is transformed. -/
  | map {α β : Type} (f : α → β) (p : Peg R α) : Peg R β
  /-- The value read is given together with the place where it starts. -/
  | located {α : Type} (p : Peg R α) : Peg R (Span × α)

namespace Peg

variable {R : Type → Type} {α β : Type}

instance : Functor (Peg R) where
  map := .map
  mapConst a p := .map (fun _ => a) p

instance : Seq (Peg R) where
  seq f p := .map (fun (g, a) => g a) (.seq f (p ()))

instance : SeqLeft (Peg R) where
  seqLeft p q := .map Prod.fst (.seq p (q ()))

instance : SeqRight (Peg R) where
  seqRight p q := .map Prod.snd (.seq p (q ()))

instance : OrElse (Peg R α) where
  orElse p q := .alt p (q ())

/-- It must match here, and nothing is read. -/
def ahead (p : Peg R α) : Peg R Unit :=
  .no (.no p)

/-- At least once, and as often as it matches; at the end of the text it is not
tried. -/
def plus (p : Peg R α) : Peg R (List α) :=
  .map (fun (_, a, as) => a :: as) (.seq (.no .eof) (.seq p (.star p)))

/-- The longest run of characters of a class, which is not empty. -/
def spanOne (p : Char → Bool) : Peg R (List Char) :=
  .map (fun (c, cs) => c :: cs) (.seq (.char p) (.span p))

/-- At most so many times, and as often as it matches. -/
def upTo : Nat → Peg R α → Peg R (List α)
  | 0, _ => .map (fun _ => []) (.span fun _ => false)
  | n + 1, p =>
    .map (fun found => match found with
      | some (a, as) => a :: as
      | none => []) (.opt (.seq p (upTo n p)))

/-- The first of several texts. -/
def oneOf (first : String) : List String → Peg R String
  | [] => .map (fun _ => first) (.lit first)
  | t :: ts => .alt (.map (fun _ => first) (.lit first)) (oneOf t ts)

end Peg
end Stylesheet
