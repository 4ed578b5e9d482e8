/-
# Expressions on their own

`Expr.parse` matches a text in such a way that it knows how far it got, with a table of the
attempts at what is in brackets.  How far a match gets is kept beside its outcome and decides
nothing: without it, an attempt is a match (`Peg.outcome_attempt`).  The table is right
(`Grammar.tried_attemptTable`), so a text is the expression that a match without a table reads
of it, the blanks around it apart (`Expr.parse_of_gives`).
-/

import Stylesheet.Proofs.Grammar.Gives

namespace Stylesheet
namespace Peg

variable {R : Type → Type} {α β : Type} {rules : Rules R}

/-- The rules with the outcomes of the attempts that are known. -/
def Rules.outcomes (rules : Rules R) : Rules R where
  body := rules.body
  known r c := (rules.tried r c).map Attempt.outcome

@[simp] theorem outcome_map (f : α → β) (a : Attempt α) :
    (a.map f).outcome = a.outcome.map f :=
  rfl

@[simp] theorem outcome_after (left : Option Nat) (a : Attempt α) :
    (a.after left).outcome = a.outcome :=
  rfl

@[simp] theorem outcome_ofRule (here : Nat) (a : Attempt α) :
    (a.ofRule here).outcome = a.outcome := by
  unfold Attempt.ofRule
  split <;> rfl

/-- A rule comes to what is kept for it, or else to what its body comes to. -/
theorem outcome_attempt_call (n : Nat) (r : R α) (c : Cursor) :
    (attempt rules (n + 1) (.call r) c).outcome =
      ((rules.tried r c).getD (attempt rules n (rules.body r) c)).outcome := by
  rw [attempt]
  cases rules.tried r c with
  | some a =>
    split
    · rfl
    · exact outcome_ofRule _ _
  | none =>
    split
    · rfl
    · exact outcome_ofRule _ _

/-- **An attempt comes to what a match comes to.** -/
theorem outcome_attempt (n : Nat) (p : Peg R α) (c : Cursor) :
    (attempt rules n p c).outcome = run rules.outcomes n p c := by
  induction n generalizing α p c with
  | zero => rw [attempt, run]
  | succ n ih =>
    cases p with
    | eof | lit | char | span => simp only [attempt, run]
    | call r =>
      have known : rules.outcomes.known r c = (rules.tried r c).map Attempt.outcome := rfl
      rw [outcome_attempt_call, run, known]
      cases rules.tried r c with
      | some a => rfl
      | none => exact ih (rules.body r) c
    | seq p q =>
      rw [attempt, run, ← ih p c]
      cases (attempt rules n p c).outcome with
      | ok x d => simp only [outcome_after, outcome_map, ih q d, Outcome.andThen]
      | fail | exhausted => rfl
    | alt p q =>
      rw [attempt, run, ← ih p c]
      cases e : (attempt rules n p c).outcome with
      | ok x d => exact e
      | fail => simp only [outcome_after, ih q c, Outcome.orElse]
      | exhausted => exact e
    | star p =>
      rw [attempt, run, ← ih p c]
      split
      · rfl
      · dsimp only
        cases (attempt rules n p c).outcome with
        | ok x d => simp only [outcome_after, outcome_map, ih (.star p) d]
        | fail | exhausted => rfl
    | opt p =>
      rw [attempt, run, ← ih p c]
      split
      · rfl
      · dsimp only
        cases (attempt rules n p c).outcome <;> rfl
    | no p =>
      rw [attempt, run, ← ih p c]
      cases (attempt rules n p c).outcome <;> rfl
    | map f p => rw [attempt, run, outcome_map, ih p c]
    | located p => rw [attempt, run, outcome_map, ih p c]

end Peg

namespace Grammar

variable {fuel : Nat} {start : Cursor} {later : Array BracketAttempts}

/-- Whether the attempts at a place come to what a match without a table comes to, however much
fuel it has, as long as it ends. -/
def Tried (c : Cursor) (b : BracketAttempts) : Prop :=
  ∀ {α : Type} (r : Rule α) (a : Peg.Attempt α), b.attempt? r = some a →
    ∀ n, Peg.run unaided n (body r) c ≠ .exhausted → Peg.run unaided n (body r) c = a.outcome

/-- Attempts that are right make rules that agree with those without them. -/
theorem agrees_outcomes (right : Peg.AllFit start Tried later) :
    unaided.Agrees (rules #[] later).outcomes fun c => ∃ k, k ≤ start.left ∧ c = start.skip k where
  body _ := rfl
  known r c o := by
    rintro ⟨k, hk, rfl⟩ found
    obtain ⟨a, ea, rfl⟩ := Option.map_eq_some_iff.1 found
    obtain ⟨b, eb, e⟩ := Option.bind_eq_some_iff.1 ea
    exact right k b hk eb r a e
  skip _ _ := exists_skip

/-- **An attempt with the table** comes to what a match without one comes to. -/
theorem outcome_attempt_eq (right : Peg.AllFit start Tried later) {n m : Nat} (le : n ≤ m)
    {α : Type} {p : Peg Rule α} {k : Nat} (hk : k ≤ start.left)
    (ends : Peg.run unaided n p (start.skip k) ≠ .exhausted) :
    (Peg.attempt (rules #[] later) m p (start.skip k)).outcome =
      Peg.run unaided n p (start.skip k) := by
  rw [Peg.outcome_attempt]
  exact Peg.run_of_agrees unaided_plain ground_ranks (agrees_outcomes right) le ⟨k, hk, rfl⟩ ends

/-- What is kept for a rule at a place is an attempt at it there, or the rule starts with
another bracket. -/
theorem outcome_attemptsAt {c : Cursor} {α : Type} {r : Rule α} {a : Peg.Attempt α}
    (kept : (attemptsAt fuel later c).attempt? r = some a) :
    a = Peg.attempt (rules #[] later) fuel (body r) c ∨
      a.outcome = .fail ∧ ∃ ts, (body r).opening? = some ts ∧ ¬ ts.isPrefixOf c.rest := by
  unfold attemptsAt at kept
  cases r <;> simp only [BracketAttempts.attempt?, Option.some.injEq, reduceCtorEq] at kept
  case parens | arguments =>
    subst kept
    split
    case h_1 => exact .inl rfl
    all_goals exact .inr ⟨rfl, exists_opening '(' [] rfl (by simp_all)⟩
  case interpolation =>
    subst kept
    split
    case h_2 => exact .inl rfl
    all_goals exact .inr ⟨rfl, exists_opening '#' ['\x7b'] rfl (by simp_all)⟩

/-- The attempts at a bracket are right. -/
theorem tried_attemptsAt (enough : (start.left + 1) * slack ≤ fuel)
    (right : Peg.AllFit start Tried later) {k : Nat} (hk : k ≤ start.left) :
    Tried (start.skip k) (attemptsAt fuel later (start.skip k)) := by
  intro α r a kept n ends
  rcases outcome_attemptsAt kept with rfl | ⟨failed, ts, opens, other⟩
  · have full := run_body_ne_exhausted enough k r
    calc Peg.run unaided n (body r) (start.skip k)
        = Peg.run unaided fuel (body r) (start.skip k) := run_unaided_eq ends full
      _ = (Peg.attempt (rules #[] later) fuel (body r) (start.skip k)).outcome :=
          (outcome_attempt_eq right (Nat.le_refl fuel) hk full).symm
  · rw [failed]
    exact Peg.run_of_opening opens other ends

/-- Given fuel in proportion to the text, every attempt in the table is what a run without the table
gives. -/
theorem tried_attemptTable (enough : (start.left + 1) * slack ≤ fuel) :
    Peg.AllFit start Tried (attemptTable fuel start) :=
  Peg.allFit_table fun _ _ hk right => tried_attemptsAt enough right hk

end Grammar

/-- **A text is the expression that some match without a table reads.** -/
theorem Expr.parse_of_gives {text : String} {e : Expr} {next : Cursor}
    (h : Grammar.Gives (.call Rule.commaList)
      (.start Expr.fileName (Text.trimChars text.toList)) (.ok e next))
    (whole : next.rest = []) : Expr.parse text = .ok e := by
  have enough : ((Cursor.start Expr.fileName (Text.trimChars text.toList)).left + 1) *
      Grammar.slack ≤ Grammar.fuelFor (Text.trimChars text.toList) := Nat.le_refl _
  obtain ⟨n, found⟩ := h.2
  have full := Grammar.run_unaided_ne_exhausted (p := .call Rule.commaList) rfl (by decide) enough
  have matched := Grammar.outcome_attempt_eq (Grammar.tried_attemptTable enough) (Nat.le_refl _)
    (Nat.zero_le _) (by rwa [Cursor.skip_zero])
  have ends : Peg.run Grammar.unaided n (.call Rule.commaList)
      (.start Expr.fileName (Text.trimChars text.toList)) ≠ .exhausted := by simp [found]
  rw [Cursor.skip_zero, Grammar.run_unaided_eq full ends, found] at matched
  unfold Expr.parse
  simp only [matched, whole, List.isEmpty_nil, if_true]

end Stylesheet
