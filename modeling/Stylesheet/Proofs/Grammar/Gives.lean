/-
# What a match comes to

`Grammar.Gives p c o` says that a match of `p` at a cursor ends with the outcome `o`.  There
is one rule for each way in which an expression can match or not, from what its parts come
to; none of them speaks of fuel.
-/

import Stylesheet.Proofs.Grammar.Unaided

namespace Stylesheet
namespace Grammar

variable {α β : Type} {p : Peg Rule α} {q : Peg Rule β} {c d e : Cursor} {a : α} {b : β}

/-- A match ends with this outcome. -/
def Gives (p : Peg Rule α) (c : Cursor) (o : Outcome α) : Prop :=
  o ≠ .exhausted ∧ ∃ n, Peg.run unaided n p c = o

namespace Gives

/-- The outcome comes of all fuel from some amount on. -/
theorem eventually {o : Outcome α} (h : Gives p c o) :
    ∃ n, ∀ m, n ≤ m → Peg.run unaided m p c = o := by
  obtain ⟨ended, n, e⟩ := h
  refine ⟨n, fun m le => ?_⟩
  rw [Peg.run_mono unaided_plain ground_ranks le (by rwa [e]), e]

/-- A match of an expression, one step deep, whose part comes to something. -/
theorem of_part {γ : Type} {whole : Peg Rule γ} {o : Outcome γ} {o' : Outcome α}
    (part : Gives p c o') (ended : o ≠ .exhausted)
    (step : ∀ n, Peg.run unaided n p c = o' → Peg.run unaided (n + 1) whole d = o) :
    Gives whole d o := by
  obtain ⟨n, h⟩ := part.eventually
  exact ⟨ended, n + 1, step n (h n (Nat.le_refl n))⟩

/-- A match of an expression, one step deep, two parts of which come to something. -/
theorem of_parts {γ : Type} {whole : Peg Rule γ} {o : Outcome γ} {o' : Outcome α}
    {o'' : Outcome β} (first : Gives p c o') (second : Gives q d o'') (ended : o ≠ .exhausted)
    (step : ∀ n, Peg.run unaided n p c = o' → Peg.run unaided n q d = o'' →
      Peg.run unaided (n + 1) whole e = o) : Gives whole e o := by
  obtain ⟨n, hn⟩ := first.eventually
  obtain ⟨m, hm⟩ := second.eventually
  exact ⟨ended, max n m + 1,
    step _ (hn _ (Nat.le_max_left n m)) (hm _ (Nat.le_max_right n m))⟩

/-- Only one outcome comes of a match. -/
theorem unique {o o' : Outcome α} (h : Gives p c o) (h' : Gives p c o') : o = o' := by
  obtain ⟨n, hn⟩ := h.eventually
  obtain ⟨m, hm⟩ := h'.eventually
  rw [← hn _ (Nat.le_max_left n m), hm _ (Nat.le_max_right n m)]

/-- The end of the text is not found while there is text. -/
theorem eof_fail (h : c.rest ≠ []) : Gives .eof c .fail :=
  ⟨by simp, 1, by simp [Peg.run, h]⟩

/-- A literal is read where it stands. -/
theorem lit {text : String} (h : text.toList <+: c.rest) :
    Gives (.lit text) c (.ok () (c.skip text.toList.length)) :=
  ⟨by simp, 1, by rw [Peg.run]; exact if_pos (List.isPrefixOf_iff_prefix.2 h)⟩

/-- A literal is refused where it does not stand. -/
theorem lit_fail {text : String} (h : ¬ text.toList <+: c.rest) : Gives (.lit text) c .fail :=
  ⟨by simp, 1, by
    rw [Peg.run]; exact if_neg fun starts => h (List.isPrefixOf_iff_prefix.1 starts)⟩

/-- A character of the class is read. -/
theorem char {f : Char → Bool} {x : Char} {rest : List Char} (here : c.rest = x :: rest)
    (h : f x = true) : Gives (.char f) c (.ok x (c.skip 1)) :=
  ⟨by simp, 1, by simp [Peg.run, here, h]⟩

/-- A character is refused if it is not of the class, and at the end. -/
theorem char_fail {f : Char → Bool} (h : ∀ x rest, c.rest = x :: rest → f x = false) :
    Gives (.char f) c .fail := by
  refine ⟨by simp, 1, ?_⟩
  rw [Peg.run]
  split
  · simp [h _ _ (by assumption)]
  · rfl

/-- A span reads all the characters of the class that follow. -/
theorem span (f : Char → Bool) :
    Gives (.span f) c (.ok (c.rest.takeWhile f) (c.skip (c.rest.takeWhile f).length)) :=
  ⟨by simp, 1, by simp [Peg.run]⟩

/-- A rule gives what its body gives. -/
theorem call {r : Rule α} {o : Outcome α} (h : Gives (body r) c o) : Gives (on r) c o := by
  refine h.of_part h.1 fun n e => ?_
  rw [Peg.run, unaided_plain]
  exact e

/-- A sequence gives both results. -/
theorem seq (first : Gives p c (.ok a d)) (second : Gives q d (.ok b e)) :
    Gives (.seq p q) c (.ok (a, b) e) :=
  first.of_parts second (by simp) fun n hp hq => by
    simp [Peg.run, hp, hq, Outcome.andThen, Outcome.map]

/-- A sequence fails with its first part. -/
theorem seq_fail (first : Gives p c .fail) : Gives (.seq p q) c .fail :=
  first.of_part (by simp) fun n hp => by simp [Peg.run, hp, Outcome.andThen]

/-- A sequence fails with its second part. -/
theorem seq_fail_after (first : Gives p c (.ok a d)) (second : Gives q d .fail) :
    Gives (.seq p q) c .fail :=
  first.of_parts second (by simp) fun n hp hq => by
    simp [Peg.run, hp, hq, Outcome.andThen, Outcome.map]

/-- A choice gives what its first part gives. -/
theorem alt {q : Peg Rule α} (h : Gives p c (.ok a d)) : Gives (.alt p q) c (.ok a d) :=
  h.of_part (by simp) fun n hp => by simp [Peg.run, hp, Outcome.orElse]

/-- A choice falls to its second part where the first fails. -/
theorem alt_else {q : Peg Rule α} {o : Outcome α} (first : Gives p c .fail)
    (second : Gives q c o) : Gives (.alt p q) c o :=
  first.of_parts second second.1 fun n hp hq => by simp [Peg.run, hp, hq, Outcome.orElse]

/-- A repetition ends where its body fails. -/
theorem star_end (h : Gives p c .fail) : Gives (.star p) c (.ok [] c) :=
  h.of_part (by simp) fun n hp => by simp [Peg.run, hp]

/-- A repetition goes on with what its body gives, as long as there is text. -/
theorem star_more {as : List α} (some : c.rest ≠ []) (first : Gives p c (.ok a d))
    (more : Gives (.star p) d (.ok as e)) : Gives (.star p) c (.ok (a :: as) e) :=
  first.of_parts more (by simp) fun n hp hq => by simp [Peg.run, some, hp, hq, Outcome.map]

/-- An optional part is left out where it fails. -/
theorem opt_none (h : Gives p c .fail) : Gives (.opt p) c (.ok none c) :=
  h.of_part (by simp) fun n hp => by simp [Peg.run, hp]

/-- An optional part is taken where it can be. -/
theorem opt_some (some : c.rest ≠ []) (h : Gives p c (.ok a d)) :
    Gives (.opt p) c (.ok (Option.some a) d) :=
  h.of_part (by simp) fun n hp => by simp [Peg.run, some, hp]

/-- A prohibition holds where its body fails, and reads nothing. -/
theorem no (h : Gives p c .fail) : Gives (.no p) c (.ok () c) :=
  h.of_part (by simp) fun n hp => by simp [Peg.run, hp]

/-- A prohibition fails where its body gives a result. -/
theorem no_fail (h : Gives p c (.ok a d)) : Gives (.no p) c .fail :=
  h.of_part (by simp) fun n hp => by simp [Peg.run, hp]

/-- A result is passed through the function. -/
theorem map {f : α → β} (h : Gives p c (.ok a d)) : Gives (.map f p) c (.ok (f a) d) :=
  h.of_part (by simp) fun n hp => by simp [Peg.run, hp, Outcome.map]

/-- A function makes up no result. -/
theorem map_fail {f : α → β} (h : Gives p c .fail) : Gives (.map f p) c .fail :=
  h.of_part (by simp) fun n hp => by simp [Peg.run, hp, Outcome.map]

/-- A result comes with the place where its reading began. -/
theorem located (h : Gives p c (.ok a d)) :
    Gives (.located p) c (.ok ({ file := c.file, line := c.line }, a) d) :=
  h.of_part (by simp) fun n hp => by simp [Peg.run, hp, Outcome.map]

/-- Noting a place makes up no result. -/
theorem located_fail (h : Gives p c .fail) : Gives (.located p) c .fail :=
  h.of_part (by simp) fun n hp => by simp [Peg.run, hp, Outcome.map]

end Gives
end Grammar
end Stylesheet
