/-
# Matching the grammar ends

No rule of the grammar comes back to itself at the place where it has been tried, and what
is repeated in the grammar reads something in each round.  So a match of any rule at any
place of any text ends (`Grammar.matching_ends`).
-/

import Stylesheet.Proofs.Grammar.Unaided
import Stylesheet.Proofs.Peg.Descent

namespace Stylesheet
namespace Grammar

variable {α β : Type}

/-- A match of a rule comes to something, which is the same with any more fuel. -/
theorem exists_outcome (r : Rule α) (c : Cursor) :
    ∃ o : Outcome α, o ≠ .exhausted ∧
      ∀ n, (c.left + 1) * slack ≤ n → Peg.run unaided n (.call r) c = o := by
  have shallow : (Peg.call r).height ranks ≤ slack := by cases r <;> decide
  have ends : Peg.run unaided ((c.left + 1) * slack) (.call r) c ≠ .exhausted :=
    run_unaided_ne_exhausted rfl shallow (Nat.le_refl _)
  exact ⟨_, ends, fun n le => Peg.run_mono unaided_plain ground_ranks le ends⟩

/-- **Matching the grammar ends.**  When the attempt of a rule leads to another attempt of
it, directly or through others, something has been read in between.  Whatever is repeated in
a rule reads something whenever it matches, so that a repetition has no more rounds than
there are characters left.  And a match of any rule at any place comes to an outcome, in a
depth of recursion that `slack` for each character is enough for. -/
theorem matching_ends :
    (∀ {α : Type} (r : Rule α) (c d : Cursor),
      Relation.TransGen (Peg.Leads unaided) ⟨α, r, c⟩ ⟨α, r, d⟩ →
        ∃ k, 0 < k ∧ k ≤ c.left ∧ d = c.skip k) ∧
    (∀ {α β : Type} (r : Rule α) (p : Peg Rule β), Peg.Repeats (body r) p →
      ∀ (n : Nat) (c d : Cursor),
        (∀ a, Peg.run unaided n p c = .ok a d → d.left < c.left) ∧
          ∀ as, Peg.run unaided n (.star p) c = .ok as d → as.length + d.left ≤ c.left) ∧
    ∀ {α : Type} (r : Rule α) (c : Cursor), ∃ o : Outcome α, o ≠ .exhausted ∧
      ∀ n, (c.left + 1) * slack ≤ n → Peg.run unaided n (.call r) c = o := by
  refine ⟨fun r c d leads => Peg.moves_of_leads unaided_plain ground_ranks leads,
    fun r p repeated n c d => ?_, exists_outcome⟩
  have eager : p.consumes ranks := repeated.consumes (ground_ranks.ground r)
  exact ⟨fun a => Peg.left_lt_of_consumes unaided_plain ground_ranks eager,
    fun as => Peg.rounds_le unaided_plain ground_ranks eager⟩

/-- An operand after `not`, which is tried past the word, and two lone semicolons, which are
two rounds of the statements of a sheet. -/
theorem matching_ends_not :
    let c : Cursor := .start "" "not a".toList
    let d : Cursor := .start "" ";;".toList
    (Relation.TransGen (Peg.Leads unaided) ⟨Expr, .unary, c⟩ ⟨Expr, .unary, c.skip 4⟩ ∧
      ∃ k, 0 < k ∧ k ≤ c.left ∧ c.skip 4 = c.skip k) ∧
    Peg.Repeats (body .sheet) (on .statement) ∧
    (∃ a e, Peg.run unaided 40 (on .statement) d = .ok a e ∧ e.left < d.left) ∧
    (∃ as e, Peg.run unaided 40 (.star (on .statement)) d = .ok as e ∧ as.length = 2 ∧
      as.length + e.left ≤ d.left) ∧
    ∃ o : Outcome Expr, o ≠ .exhausted ∧
      ∀ n, (c.left + 1) * slack ≤ n → Peg.run unaided n (.call Rule.commaList) c = o := by
  intro c d
  obtain ⟨moves, rounds, ends⟩ := matching_ends
  have word : Peg.run unaided 20 (on .notOp) c = .ok () (c.skip 4) := rfl
  have leads : Peg.Leads unaided ⟨Expr, .unary, c⟩ ⟨Expr, .unary, c.skip 4⟩ :=
    .left (.map (.map (.second word .call)))
  have repeated : Peg.Repeats (body .sheet) (on .statement) := .map (.map (.second .here))
  have one : Peg.run unaided 40 (on .statement) d = .ok (.ok none) (d.skip 1) := rfl
  have two : Peg.run unaided 40 (.star (on .statement)) d =
      .ok [.ok none, .ok none] (d.skip 2) := rfl
  exact ⟨⟨.single leads, moves .unary c _ (.single leads)⟩, repeated,
    ⟨_, _, one, (rounds .sheet _ repeated 40 d _).1 _ one⟩,
    ⟨_, _, two, rfl, (rounds .sheet _ repeated 40 d _).2 _ two⟩, ends .commaList c⟩

end Grammar
end Stylesheet
