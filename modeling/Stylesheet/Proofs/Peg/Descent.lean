/-
# Going down without coming back

A match of an expression tries rules, whose expressions try rules in turn.
`Peg.Tries rules p c r d` says that a match of `p` at `c` tries the rule `r` at `d` without
going through another rule, also inside a look-ahead or in an alternative that fails
(`Peg.run_eq_of_tries`: nothing else matters to the match), and `Peg.Leads` that one attempt
of a rule directly leads to another.

If the ranks of a grammar are right (`Peg.Ranks.Ground`), an attempt leads on to later places
of the text or, at its own place, to rules of a lower rank (`Peg.Leads.descends`).  So no
attempt comes back to its rule at its place, however many others are in between
(`Peg.moves_of_leads`).  And whatever is repeated reads something in each round
(`Peg.Repeats.consumes`), so a repetition has no more rounds than characters
(`Peg.rounds_le`).
-/

import Stylesheet.Proofs.Peg.Fuel
import Mathlib.Logic.Relation

namespace Stylesheet
namespace Peg

variable {R : Type → Type}

/-- A match of an expression at a place tries a rule at a place, going by the expression
alone. -/
inductive Tries (rules : Rules R) :
    {α β : Type} → Peg R α → Cursor → R β → Cursor → Prop where
  /-- A rule is tried where it is called. -/
  | call {β : Type} {r : R β} {c : Cursor} : Tries rules (.call r) c r c
  /-- The first of two parts is matched where both are. -/
  | first {α β γ : Type} {p : Peg R α} {q : Peg R γ} {r : R β} {c d : Cursor} :
      Tries rules p c r d → Tries rules (.seq p q) c r d
  /-- The second part is matched where the first one ends. -/
  | second {α β γ : Type} {p : Peg R α} {q : Peg R γ} {r : R β} {c e d : Cursor} {n : Nat}
      {a : α} : run rules n p c = .ok a e → Tries rules q e r d → Tries rules (.seq p q) c r d
  /-- The first alternative is matched. -/
  | left {α β : Type} {p q : Peg R α} {r : R β} {c d : Cursor} :
      Tries rules p c r d → Tries rules (.alt p q) c r d
  /-- The second alternative is matched where the first one is not. -/
  | right {α β : Type} {p q : Peg R α} {r : R β} {c d : Cursor} {n : Nat} :
      run rules n p c = .fail → Tries rules q c r d → Tries rules (.alt p q) c r d
  /-- The first round of a repetition, unless the text ends here. -/
  | round {α β : Type} {p : Peg R α} {r : R β} {c d : Cursor} :
      c.rest ≠ [] → Tries rules p c r d → Tries rules (.star p) c r d
  /-- The rounds after it. -/
  | again {α β : Type} {p : Peg R α} {r : R β} {c e d : Cursor} {n : Nat} {a : α} :
      c.rest ≠ [] → run rules n p c = .ok a e → Tries rules (.star p) e r d →
        Tries rules (.star p) c r d
  /-- What is optional, unless the text ends here. -/
  | opt {α β : Type} {p : Peg R α} {r : R β} {c d : Cursor} :
      c.rest ≠ [] → Tries rules p c r d → Tries rules (.opt p) c r d
  /-- A look-ahead. -/
  | no {α β : Type} {p : Peg R α} {r : R β} {c d : Cursor} :
      Tries rules p c r d → Tries rules (.no p) c r d
  /-- What is transformed. -/
  | map {α β γ : Type} {f : α → γ} {p : Peg R α} {r : R β} {c d : Cursor} :
      Tries rules p c r d → Tries rules (.map f p) c r d
  /-- What is given with its place. -/
  | located {α β : Type} {p : Peg R α} {r : R β} {c d : Cursor} :
      Tries rules p c r d → Tries rules (.located p) c r d

/-- A rule at a place. -/
structure Place (R : Type → Type) where
  /-- What the rule reads. -/
  type : Type
  /-- The rule. -/
  rule : R type
  /-- The place. -/
  cursor : Cursor

/-- The attempt of a rule at a place directly leads to that of another one. -/
def Leads (rules : Rules R) (s t : Place R) : Prop :=
  Tries rules (rules.body s.rule) s.cursor t.rule t.cursor

/-- An expression is repeated somewhere in another one. -/
inductive Repeats : {α β : Type} → Peg R α → Peg R β → Prop where
  /-- What a repetition repeats. -/
  | here {α : Type} {p : Peg R α} : Repeats (.star p) p
  /-- What is repeated inside that. -/
  | round {α β : Type} {p : Peg R α} {q : Peg R β} : Repeats p q → Repeats (.star p) q
  /-- What is repeated in the first of two parts. -/
  | first {α β γ : Type} {p : Peg R α} {p' : Peg R γ} {q : Peg R β} :
      Repeats p q → Repeats (.seq p p') q
  /-- What is repeated in the second part. -/
  | second {α β γ : Type} {p : Peg R α} {p' : Peg R γ} {q : Peg R β} :
      Repeats p' q → Repeats (.seq p p') q
  /-- What is repeated in the first alternative. -/
  | left {α β : Type} {p p' : Peg R α} {q : Peg R β} :
      Repeats p q → Repeats (.alt p p') q
  /-- What is repeated in the second alternative. -/
  | right {α β : Type} {p p' : Peg R α} {q : Peg R β} :
      Repeats p' q → Repeats (.alt p p') q
  /-- What is repeated in something optional. -/
  | opt {α β : Type} {p : Peg R α} {q : Peg R β} : Repeats p q → Repeats (.opt p) q
  /-- What is repeated in a look-ahead. -/
  | no {α β : Type} {p : Peg R α} {q : Peg R β} : Repeats p q → Repeats (.no p) q
  /-- What is repeated in something transformed. -/
  | map {α β γ : Type} {f : α → γ} {p : Peg R α} {q : Peg R β} :
      Repeats p q → Repeats (.map f p) q
  /-- What is repeated in something located. -/
  | located {α β : Type} {p : Peg R α} {q : Peg R β} : Repeats p q → Repeats (.located p) q

variable {α β : Type} {rules : Rules R} {g : Ranks R} {slack : Nat}

/-- **What a match comes to depends on nothing but the rules it tries:** if other rules come
to the same wherever it tries one, it comes to the same by them. -/
theorem run_eq_of_tries {rules' : Rules R} {n : Nat} {p : Peg R α} {c : Cursor}
    (same : ∀ {β : Type} (r : R β) (d : Cursor), Tries rules p c r d →
      ∀ m, run rules' m (.call r) d = run rules m (.call r) d) :
    run rules' n p c = run rules n p c := by
  induction n generalizing α p c with
  | zero => rw [run, run]
  | succ n ih =>
    cases p with
    | eof | lit | char | span => simp only [run]
    | call r => exact same r c .call (n + 1)
    | seq p q =>
      rw [run, run, ih fun r d tries => same r d (.first tries)]
      cases first : run rules n p c with
      | ok a e => simp only [Outcome.andThen, ih fun r d tries => same r d (.second first tries)]
      | fail | exhausted => rfl
    | alt p q =>
      rw [run, run, ih fun r d tries => same r d (.left tries)]
      cases first : run rules n p c with
      | fail => exact ih fun r d tries => same r d (.right first tries)
      | ok | exhausted => rfl
    | star p =>
      rw [run, run]
      split
      · rfl
      · rename_i more
        rw [List.isEmpty_iff] at more
        rw [ih fun r d tries => same r d (.round more tries)]
        cases first : run rules n p c with
        | ok a e => simp only [ih fun r d tries => same r d (.again more first tries)]
        | fail | exhausted => rfl
    | opt p =>
      rw [run, run]
      split
      · rfl
      · rename_i more
        rw [List.isEmpty_iff] at more
        rw [ih fun r d tries => same r d (.opt more tries)]
    | no p => rw [run, run, ih fun r d tries => same r d (.no tries)]
    | map f p => rw [run, run, ih fun r d tries => same r d (.map tries)]
    | located p => rw [run, run, ih fun r d tries => same r d (.located tries)]

/-- **What a match tries** is tried later in the text, or goes less deep. -/
theorem Tries.descends (plain : rules.Plain) (ground : g.Ground slack rules) {p : Peg R α}
    {r : R β} {c d : Cursor} (h : Tries rules p c r d) :
    ∃ k, k ≤ c.left ∧ d = c.skip k ∧ (k = 0 → g.rank r < p.height g) := by
  -- one part of the text after another, of which the second one leads to the rule
  have later {c e d : Cursor} {k : Nat} (hk : k ≤ c.left) (he : e = c.skip k) {l : Nat}
      (hl : l ≤ e.left) (hd : d = e.skip l) : k + l ≤ c.left ∧ d = c.skip (k + l) := by
    subst he
    obtain ⟨hkl, e⟩ := skips_both hk hl
    exact ⟨hkl, hd.trans e⟩
  induction h with
  | call => exact ⟨0, Nat.zero_le _, (Cursor.skip_zero _).symm, fun _ => Nat.lt_succ_self _⟩
  | first _ ih | left _ ih | right _ _ ih =>
    obtain ⟨k, hk, e, lower⟩ := ih
    refine ⟨k, hk, e, fun here => ?_⟩
    have := lower here
    rw [height]
    omega
  | second first _ ih =>
    obtain ⟨k, hk, e, some'⟩ := run_eq_ok plain ground first
    obtain ⟨l, hl, e', lower⟩ := ih
    obtain ⟨hkl, e''⟩ := later hk e hl e'
    refine ⟨k + l, hkl, e'', fun here => ?_⟩
    have nothing : ¬ _ := fun eager => Nat.ne_of_gt (some' eager) (by omega)
    have := lower (by omega)
    rw [height, if_neg nothing]
    omega
  | again _ first _ ih =>
    obtain ⟨k, hk, e, -⟩ := run_eq_ok plain ground first
    obtain ⟨l, hl, e', lower⟩ := ih
    obtain ⟨hkl, e''⟩ := later hk e hl e'
    exact ⟨k + l, hkl, e'', fun here => lower (by omega)⟩
  | round _ _ ih | opt _ _ ih | no _ ih | map _ ih | located _ ih =>
    obtain ⟨k, hk, e, lower⟩ := ih
    refine ⟨k, hk, e, fun here => ?_⟩
    have := lower here
    rw [height]
    omega

/-- **An attempt leads to later places or to lower ranks.** -/
theorem Leads.descends (plain : rules.Plain) (ground : g.Ground slack rules) {s t : Place R}
    (h : Leads rules s t) :
    ∃ k, k ≤ s.cursor.left ∧ t.cursor = s.cursor.skip k ∧
      (k = 0 → g.rank t.rule < g.rank s.rule) := by
  obtain ⟨k, hk, e, lower⟩ := Tries.descends plain ground h
  exact ⟨k, hk, e, fun here => Nat.lt_of_lt_of_le (lower here) (ground.rank s.rule)⟩

/-- However many rules deep a match goes, the place moves on or the rank falls. -/
theorem descends_of_transGen (plain : rules.Plain) (ground : g.Ground slack rules)
    {s t : Place R} (h : Relation.TransGen (Leads rules) s t) :
    ∃ k, k ≤ s.cursor.left ∧ t.cursor = s.cursor.skip k ∧
      (k = 0 → g.rank t.rule < g.rank s.rule) := by
  induction h with
  | single step => exact step.descends plain ground
  | tail _ step ih =>
    obtain ⟨k, hk, e, lower⟩ := ih
    obtain ⟨l, hl, e', lower'⟩ := step.descends plain ground
    rw [e] at hl e'
    obtain ⟨hkl, e''⟩ := skips_both hk hl
    refine ⟨k + l, hkl, e'.trans e'', fun here => ?_⟩
    exact Nat.lt_trans (lower' (by omega)) (lower (by omega))

/-- **No attempt of a rule comes back to it at its place:** when the rule is tried again,
something has been read. -/
theorem moves_of_leads (plain : rules.Plain) (ground : g.Ground slack rules) {r : R α}
    {c d : Cursor} (h : Relation.TransGen (Leads rules) ⟨α, r, c⟩ ⟨α, r, d⟩) :
    ∃ k, 0 < k ∧ k ≤ c.left ∧ d = c.skip k := by
  obtain ⟨k, hk, e, lower⟩ := descends_of_transGen plain ground h
  refine ⟨k, Nat.pos_of_ne_zero fun here => ?_, hk, e⟩
  exact Nat.lt_irrefl _ (lower here)

/-- Whatever is repeated reads something. -/
theorem Repeats.consumes {p : Peg R α} {q : Peg R β} (h : Repeats p q)
    (ground : p.ground g slack) : q.consumes g := by
  induction h with
  | here =>
    simp only [Peg.ground, Bool.and_eq_true] at ground
    exact ground.1.2
  | round _ ih =>
    simp only [Peg.ground, Bool.and_eq_true] at ground
    exact ih ground.1.1
  | first _ ih =>
    simp only [Peg.ground, Bool.and_eq_true] at ground
    exact ih ground.1.1
  | second _ ih =>
    simp only [Peg.ground, Bool.and_eq_true] at ground
    exact ih ground.1.2
  | left _ ih =>
    simp only [Peg.ground, Bool.and_eq_true] at ground
    exact ih ground.1
  | right _ ih =>
    simp only [Peg.ground, Bool.and_eq_true] at ground
    exact ih ground.2
  | opt _ ih | no _ ih | map _ ih | located _ ih => exact ih ground

/-- An expression that consumes moves on. -/
theorem left_lt_of_consumes (plain : rules.Plain) (ground : g.Ground slack rules) {p : Peg R α}
    (eager : p.consumes g) {n : Nat} {c d : Cursor} {a : α} (h : run rules n p c = .ok a d) :
    d.left < c.left := by
  obtain ⟨k, hk, rfl, some'⟩ := run_eq_ok plain ground h
  have := some' eager
  rw [Cursor.left_skip]
  omega

/-- **A repetition has no more rounds than it reads characters.** -/
theorem rounds_le (plain : rules.Plain) (ground : g.Ground slack rules) {p : Peg R α}
    (eager : p.consumes g) {n : Nat} {c d : Cursor} {as : List α}
    (h : run rules n (.star p) c = .ok as d) : as.length + d.left ≤ c.left := by
  induction n generalizing c as with
  | zero =>
    rw [run] at h
    cases h
  | succ n ih =>
    rcases run_star_eq_ok h with ⟨rfl, rfl, -⟩ | ⟨a, e, others, rfl, -, first, rest⟩
    · simp
    · have moved := left_lt_of_consumes plain ground eager first
      have := ih rest
      rw [List.length_cons]
      omega

end Peg
end Stylesheet
