/-
# Fuel

What a match reads is a run of characters from its place on (`Peg.run_eq_ok`), so a match
stays among the places of its text.

A match that does not run out of fuel comes to the same with more of it, and by rules that
know some answers beforehand, as long as the answers are right (`Peg.run_of_knows`).

Whether a match runs out can be read off the expression.  `Peg.consumes` says that an
expression reads something whenever it matches, and `Peg.height` bounds how deep a match
goes until something is read.  In rules where every repetition reads something in each round
and no rule comes back to itself before (`Peg.Ranks.Ground`), a match has enough fuel with
`slack` for every character that is left (`Peg.run_ne_exhausted`).
-/

import Stylesheet.Peg.Match

namespace Stylesheet

namespace Cursor

/-- Skipping nothing leaves the cursor. -/
theorem skip_zero (c : Cursor) : c.skip 0 = c := by
  simp [skip]

/-- Skipping twice is skipping both at once. -/
theorem skip_skip (c : Cursor) (m n : Nat) : (c.skip m).skip n = c.skip (m + n) := by
  have lines : (c.rest.take m).count '\n' + ((c.rest.drop m).take n).count '\n' =
      (c.rest.take (m + n)).count '\n' := by
    rw [← List.count_append, List.take_add]
  simp only [skip, List.drop_drop, Nat.sub_sub, Nat.add_assoc, lines]

@[simp] theorem left_skip (c : Cursor) (n : Nat) : (c.skip n).left = c.left - n :=
  rfl

@[simp] theorem rest_skip (c : Cursor) (n : Nat) : (c.skip n).rest = c.rest.drop n :=
  rfl

@[simp] theorem file_skip (c : Cursor) (n : Nat) : (c.skip n).file = c.file :=
  rfl

end Cursor

namespace Peg

variable {R : Type → Type} {α β : Type}

/-- How the rules of a grammar go down to what they read. -/
structure Ranks (R : Type → Type) where
  /-- Whether a rule reads something whenever it matches. -/
  eager : {α : Type} → R α → Bool
  /-- How deep a match of a rule goes until something is read. -/
  rank : {α : Type} → R α → Nat

section

variable (g : Ranks R)

/-- Whether an expression reads something whenever it matches. -/
def consumes : {α : Type} → Peg R α → Bool
  | _, .lit text => !text.toList.isEmpty
  | _, .char _ => true
  | _, .call r => g.eager r
  | _, .seq p q => p.consumes || q.consumes
  | _, .alt p q => p.consumes && q.consumes
  | _, .map _ p | _, .located p => p.consumes
  | _, .eof | _, .span _ | _, .star _ | _, .opt _ | _, .no _ => false

/-- How deep a match goes until something is read. -/
def height : {α : Type} → Peg R α → Nat
  | _, .eof | _, .lit _ | _, .char _ | _, .span _ => 1
  | _, .call r => g.rank r + 1
  | _, .seq p q => max p.height (if p.consumes g then 0 else q.height) + 1
  | _, .alt p q => max p.height q.height + 1
  | _, .star p | _, .opt p | _, .no p | _, .map _ p | _, .located p => p.height + 1

/-- Whether every repetition in an expression reads something in each round, and nothing
that comes after something that is read goes deeper than `slack`. -/
def ground (slack : Nat) : {α : Type} → Peg R α → Bool
  | _, .eof | _, .lit _ | _, .char _ | _, .span _ | _, .call _ => true
  | _, .seq p q => p.ground slack && q.ground slack && decide (q.height g ≤ slack)
  | _, .alt p q => p.ground slack && q.ground slack
  | _, .star p => p.ground slack && p.consumes g && decide (p.height g + 1 ≤ slack)
  | _, .opt p | _, .no p | _, .map _ p | _, .located p => p.ground slack

end

/-- Whether the ranks are right: a rule is eager only if its expression consumes, which goes
no deeper than the rank says, and all expressions are ground. -/
structure Ranks.Ground (g : Ranks R) (slack : Nat) (rules : Rules R) : Prop where
  eager : ∀ {α : Type} (r : R α), g.eager r → (rules.body r).consumes g
  rank : ∀ {α : Type} (r : R α), (rules.body r).height g ≤ g.rank r
  ground : ∀ {α : Type} (r : R α), (rules.body r).ground g slack

/-- Whether no answers are known beforehand. -/
def Rules.Plain (rules : Rules R) : Prop :=
  ∀ {α : Type} (r : R α) (c : Cursor), rules.known r c = none

variable {rules : Rules R}

-- everything below goes by the equations of `run`
attribute [local simp] run

/-- A text that starts what is left is not longer than that. -/
theorem length_le_of_isPrefixOf {ts : List Char} {c : Cursor} (h : ts.isPrefixOf c.rest) :
    ts.length ≤ c.left :=
  c.left_eq ▸ (List.isPrefixOf_iff_prefix.1 h).length_le

/-- A result that has been passed through a function. -/
theorem map_eq_ok {f : α → β} {o : Outcome α} {b : β} {d : Cursor} :
    o.map f = .ok b d ↔ ∃ a, o = .ok a d ∧ f a = b := by
  cases o with
  | ok a c =>
    simp only [Outcome.map, Outcome.ok.injEq]
    constructor
    · rintro ⟨rfl, rfl⟩
      exact ⟨a, ⟨rfl, rfl⟩, rfl⟩
    · rintro ⟨_, ⟨rfl, rfl⟩, rfl⟩
      exact ⟨rfl, rfl⟩
  | fail => simp [Outcome.map]
  | exhausted => simp [Outcome.map]

/-- Passing a result through a function takes no fuel. -/
theorem map_eq_exhausted {f : α → β} {o : Outcome α} :
    o.map f = .exhausted ↔ o = .exhausted := by
  cases o <;> simp [Outcome.map]

/-- A result of two matches, one after the other. -/
theorem andThen_eq_ok {o : Outcome α} {f : α → Cursor → Outcome β} {b : β} {d : Cursor} :
    o.andThen f = .ok b d ↔ ∃ a c, o = .ok a c ∧ f a c = .ok b d := by
  cases o with
  | ok a c =>
    simp only [Outcome.andThen, Outcome.ok.injEq]
    constructor
    · exact fun h => ⟨a, c, ⟨rfl, rfl⟩, h⟩
    · rintro ⟨_, _, ⟨rfl, rfl⟩, h⟩
      exact h
  | fail => simp [Outcome.andThen]
  | exhausted => simp [Outcome.andThen]

/-! ### What comes of a match comes of matches of the parts -/

section

variable {n : Nat} {p : Peg R α} {q : Peg R β} {c d : Cursor}

/-- A result of `map` is one of its body. -/
theorem run_map_eq_ok {f : α → β} {b : β} (h : run rules (n + 1) (.map f p) c = .ok b d) :
    ∃ a, run rules n p c = .ok a d ∧ f a = b := by
  rw [run] at h
  exact map_eq_ok.1 h

/-- A result of `located` is one of its body with the place before it. -/
theorem run_located_eq_ok {sa : Span × α} (h : run rules (n + 1) (.located p) c = .ok sa d) :
    ∃ a, run rules n p c = .ok a d ∧ ({ file := c.file, line := c.line }, a) = sa := by
  rw [run] at h
  exact map_eq_ok.1 h

/-- A result of a sequence is a result of both of its parts. -/
theorem run_seq_eq_ok {ab : α × β} (h : run rules (n + 1) (.seq p q) c = .ok ab d) :
    ∃ a e b, run rules n p c = .ok a e ∧ run rules n q e = .ok b d ∧ (a, b) = ab := by
  rw [run] at h
  obtain ⟨a, e, first, h⟩ := andThen_eq_ok.1 h
  obtain ⟨b, second, both⟩ := map_eq_ok.1 h
  exact ⟨a, e, b, first, second, both⟩

/-- The second alternative is matched only where the first one is not. -/
theorem run_alt_eq_ok {q : Peg R α} {a : α} (h : run rules (n + 1) (.alt p q) c = .ok a d) :
    run rules n p c = .ok a d ∨ run rules n p c = .fail ∧ run rules n q c = .ok a d := by
  rw [run] at h
  cases first : run rules n p c with
  | ok a' e =>
    rw [first] at h
    exact .inl h
  | fail =>
    rw [first] at h
    exact .inr ⟨rfl, h⟩
  | exhausted =>
    rw [first] at h
    cases h

/-- What is repeated is read again, or it is not there. -/
theorem run_star_eq_ok {as : List α} (h : run rules (n + 1) (.star p) c = .ok as d) :
    as = [] ∧ d = c ∧ (c.rest.isEmpty ∨ run rules n p c = .fail) ∨
      ∃ a e others, as = a :: others ∧ ¬ c.rest.isEmpty ∧ run rules n p c = .ok a e ∧
        run rules n (.star p) e = .ok others d := by
  rw [run] at h
  split at h
  · rename_i done
    cases h
    exact .inl ⟨rfl, rfl, .inl done⟩
  · rename_i more
    cases first : run rules n p c with
    | ok a e =>
      rw [first] at h
      obtain ⟨others, rest, rfl⟩ := map_eq_ok.1 h
      exact .inr ⟨a, e, others, rfl, more, rfl, rest⟩
    | fail =>
      rw [first] at h
      cases h
      exact .inl ⟨rfl, rfl, .inr rfl⟩
    | exhausted =>
      rw [first] at h
      cases h

/-- A result of an optional part is none, or one of the part. -/
theorem run_opt_eq_ok {o : Option α} (h : run rules (n + 1) (.opt p) c = .ok o d) :
    o = none ∧ d = c ∨ ∃ a, o = some a ∧ run rules n p c = .ok a d := by
  rw [run] at h
  split at h
  · cases h
    exact .inl ⟨rfl, rfl⟩
  · cases first : run rules n p c with
    | ok a e =>
      rw [first] at h
      cases h
      exact .inr ⟨a, rfl, rfl⟩
    | fail =>
      rw [first] at h
      cases h
      exact .inl ⟨rfl, rfl⟩
    | exhausted =>
      rw [first] at h
      cases h

/-- A prohibition gives a result where its body fails. -/
theorem run_no_eq_ok {u : Unit} (h : run rules (n + 1) (.no p) c = .ok u d) :
    run rules n p c = .fail ∧ d = c := by
  rw [run] at h
  cases inner : run rules n p c with
  | ok a e =>
    rw [inner] at h
    cases h
  | fail =>
    rw [inner] at h
    cases h
    exact ⟨rfl, rfl⟩
  | exhausted =>
    rw [inner] at h
    cases h

end

/-- Nothing is read. -/
theorem skips_nothing (c : Cursor) {reads : Prop} (h : ¬ reads) :
    ∃ k, k ≤ c.left ∧ c = c.skip k ∧ (reads → 0 < k) :=
  ⟨0, Nat.zero_le _, c.skip_zero.symm, fun eager => absurd eager h⟩

/-- One run of characters after another. -/
theorem skips_both {c : Cursor} {k l : Nat} (hk : k ≤ c.left) (hl : l ≤ (c.skip k).left) :
    k + l ≤ c.left ∧ (c.skip k).skip l = c.skip (k + l) := by
  rw [Cursor.left_skip] at hl
  exact ⟨by omega, c.skip_skip k l⟩

/-- **What is read is a run of characters**, and not an empty one if the expression
consumes. -/
theorem run_eq_ok (plain : rules.Plain) {g : Ranks R} {slack : Nat}
    (ground : g.Ground slack rules) {n : Nat} {α : Type} {p : Peg R α} {c : Cursor} {a : α}
    {d : Cursor} (h : run rules n p c = .ok a d) :
    ∃ k, k ≤ c.left ∧ d = c.skip k ∧ (p.consumes g → 0 < k) := by
  induction n generalizing α p c a d with
  | zero =>
    rw [run] at h
    cases h
  | succ n ih =>
    cases p with
    | eof =>
      rw [run] at h
      split at h <;> cases h
      exact skips_nothing c (by simp [consumes])
    | lit text =>
      rw [run] at h
      split at h <;> cases h
      refine ⟨_, length_le_of_isPrefixOf (by assumption), rfl, fun nonempty => ?_⟩
      cases e : text.toList with
      | nil => simp [consumes, e] at nonempty
      | cons => simp
    | char q =>
      rw [run] at h
      split at h
      · rename_i x rest e
        split at h <;> cases h
        exact ⟨1, by simp [c.left_eq, e], rfl, fun _ => Nat.one_pos⟩
      · cases h
    | span q =>
      rw [run] at h
      cases h
      exact ⟨_, c.left_eq ▸ (List.takeWhile_prefix q).length_le, rfl, by simp [consumes]⟩
    | call r =>
      rw [run, plain] at h
      obtain ⟨k, hk, e, some⟩ := ih h
      exact ⟨k, hk, e, fun eager => some (ground.eager r eager)⟩
    | seq p q =>
      obtain ⟨a', c', b, first, second, -⟩ := run_seq_eq_ok h
      obtain ⟨k, hk, rfl, some⟩ := ih first
      obtain ⟨l, hl, rfl, more⟩ := ih second
      obtain ⟨hkl, e⟩ := skips_both hk hl
      refine ⟨k + l, hkl, e, fun either => ?_⟩
      rw [consumes, Bool.or_eq_true] at either
      rcases either with hp | hq
      · exact Nat.lt_of_lt_of_le (some hp) (Nat.le_add_right k l)
      · exact Nat.lt_of_lt_of_le (more hq) (Nat.le_add_left l k)
    | alt p q =>
      simp only [consumes, Bool.and_eq_true]
      rcases run_alt_eq_ok h with side | ⟨-, side⟩
      · obtain ⟨k, hk, e, some⟩ := ih side
        exact ⟨k, hk, e, fun both => some both.1⟩
      · obtain ⟨k, hk, e, some⟩ := ih side
        exact ⟨k, hk, e, fun both => some both.2⟩
    | star p =>
      rcases run_star_eq_ok h with ⟨-, rfl, -⟩ | ⟨a', c', others, -, -, first, second⟩
      · exact skips_nothing d (by simp [consumes])
      · obtain ⟨k, hk, rfl, -⟩ := ih first
        obtain ⟨l, hl, rfl, -⟩ := ih second
        obtain ⟨hkl, e⟩ := skips_both hk hl
        exact ⟨k + l, hkl, e, by simp [consumes]⟩
    | opt p =>
      rcases run_opt_eq_ok h with ⟨-, rfl⟩ | ⟨a', -, first⟩
      · exact skips_nothing d (by simp [consumes])
      · obtain ⟨k, hk, e, -⟩ := ih first
        exact ⟨k, hk, e, by simp [consumes]⟩
    | no p =>
      obtain ⟨-, rfl⟩ := run_no_eq_ok h
      exact skips_nothing d (by simp [consumes])
    | map f p =>
      obtain ⟨a', inner, -⟩ := run_map_eq_ok h
      exact ih (p := p) inner
    | located p =>
      obtain ⟨a', inner, -⟩ := run_located_eq_ok h
      exact ih (p := p) inner

/-- Whether `rules'` are `rules` with answers that are known beforehand, which are right at
the places in `good`: no match that ends comes to anything else. -/
structure Rules.Agrees (rules rules' : Rules R) (good : Cursor → Prop) : Prop where
  body : ∀ {α : Type} (r : R α), rules'.body r = rules.body r
  known : ∀ {α : Type} (r : R α) (c : Cursor) (o : Outcome α), good c →
    rules'.known r c = some o → ∀ n, run rules n (rules.body r) c ≠ .exhausted →
      run rules n (rules.body r) c = o
  skip : ∀ (c : Cursor) (k : Nat), k ≤ c.left → good c → good (c.skip k)

/-- **Answers that are known beforehand and more fuel change nothing** about a match that
ends. -/
theorem run_of_agrees (plain : rules.Plain) {g : Ranks R} {slack : Nat}
    (ground : g.Ground slack rules) {rules' : Rules R} {good : Cursor → Prop}
    (agree : rules.Agrees rules' good) {n m : Nat} (le : n ≤ m) {α : Type} {p : Peg R α}
    {c : Cursor} (here : good c) (ends : run rules n p c ≠ .exhausted) :
    run rules' m p c = run rules n p c := by
  induction n generalizing m α p c with
  | zero => exact absurd (by rw [run]) ends
  | succ n ih =>
    obtain ⟨m, rfl⟩ : ∃ k, m = k + 1 := ⟨m - 1, by omega⟩
    replace le : n ≤ m := Nat.le_of_succ_le_succ le
    have later {α : Type} {p : Peg R α} {a : α} {d : Cursor} (h : run rules n p c = .ok a d) :
        good d := by
      obtain ⟨k, hk, rfl, -⟩ := run_eq_ok plain ground h
      exact agree.skip c k hk here
    have same {α : Type} {p : Peg R α} {o : Outcome α} (h : run rules n p c = o)
        (ended : o ≠ .exhausted) : run rules' m p c = o :=
      (ih le here (h ▸ ended)).trans h
    cases p with
    | eof | lit | char | span => simp only [run]
    | call r =>
      rw [run, plain] at ends
      rw [run, run, plain, agree.body]
      cases e : rules'.known r c with
      | none => exact ih le here ends
      | some o => exact (agree.known r c o here e n ends).symm
    | seq p q =>
      rw [run] at ends
      rw [run, run]
      cases first : run rules n p c with
      | ok a d =>
        simp only [first, Outcome.andThen, ne_eq, map_eq_exhausted] at ends
        simp only [same first (by simp), Outcome.andThen, ih le (later first) ends]
      | fail => simp only [same first (by simp), Outcome.andThen]
      | exhausted => simp [first, Outcome.andThen] at ends
    | alt p q =>
      rw [run] at ends
      rw [run, run]
      cases first : run rules n p c with
      | ok a d => simp only [same first (by simp), Outcome.orElse]
      | fail =>
        simp only [first, Outcome.orElse] at ends
        simp only [same first (by simp), Outcome.orElse, ih le here ends]
      | exhausted => simp [first, Outcome.orElse] at ends
    | star p =>
      rw [run] at ends
      rw [run, run]
      split
      · rfl
      · rw [if_neg (by assumption)] at ends
        cases first : run rules n p c with
        | ok a d =>
          simp only [first, ne_eq, map_eq_exhausted] at ends
          simp only [same first (by simp), ih le (later first) ends]
        | fail => simp only [same first (by simp)]
        | exhausted => simp [first] at ends
    | opt p =>
      rw [run] at ends
      rw [run, run]
      split
      · rfl
      · rw [if_neg (by assumption)] at ends
        cases first : run rules n p c with
        | ok a d => simp only [same first (by simp)]
        | fail => simp only [same first (by simp)]
        | exhausted => simp [first] at ends
    | no p =>
      rw [run] at ends
      rw [run, run]
      cases first : run rules n p c with
      | ok a d => simp only [same first (by simp)]
      | fail => simp only [same first (by simp)]
      | exhausted => simp [first] at ends
    | map f p =>
      rw [run, ne_eq, map_eq_exhausted] at ends
      rw [run, run, ih le here ends]
    | located p =>
      rw [run, ne_eq, map_eq_exhausted] at ends
      rw [run, run, ih le here ends]

/-- Rules without answers agree with themselves. -/
theorem Rules.Plain.agrees (plain : rules.Plain) : rules.Agrees rules fun _ => True where
  body _ := rfl
  known r c o _ h := absurd h (by simp [plain r c])
  skip _ _ _ _ := trivial

/-- **More fuel changes nothing** about a match that ends. -/
theorem run_mono (plain : rules.Plain) {g : Ranks R} {slack : Nat} (ground : g.Ground slack rules)
    {n m : Nat} (le : n ≤ m) {p : Peg R α} {c : Cursor} (ends : run rules n p c ≠ .exhausted) :
    run rules m p c = run rules n p c :=
  run_of_agrees plain ground plain.agrees le trivial ends

/-- **A match ends** if there is fuel of `slack` for every character that is left and as
much as it needs until something is read. -/
theorem run_ne_exhausted (plain : rules.Plain) {g : Ranks R} {slack : Nat}
    (ground : g.Ground slack rules) {n : Nat} {α : Type} {p : Peg R α}
    (hp : p.ground g slack) {c : Cursor} (enough : c.left * slack + p.height g ≤ n) :
    run rules n p c ≠ .exhausted := by
  induction n generalizing α p c with
  | zero => cases p <;> simp [height] at enough
  | succ n ih =>
    -- after something is read, there is fuel for whatever goes no deeper than `slack`
    have after {k height : Nat} (hk : k ≤ c.left) (some : 0 < k) (small : height ≤ slack) :
        (c.skip k).left * slack + height ≤ c.left * slack := by
      have less : c.left - k + 1 ≤ c.left := by omega
      calc (c.skip k).left * slack + height
          ≤ (c.left - k) * slack + slack := Nat.add_le_add_left small _
        _ = (c.left - k + 1) * slack := by rw [Nat.succ_mul]
        _ ≤ c.left * slack := Nat.mul_le_mul_right slack less
    have here (k : Nat) : (c.skip k).left * slack ≤ c.left * slack :=
      Nat.mul_le_mul_right slack (Nat.sub_le _ _)
    cases p with
    | eof | lit | char | span =>
      rw [run]
      repeat' split
      all_goals simp
    | call r =>
      rw [run, plain]
      have depth := ground.rank r
      exact ih (ground.ground r) (by simp only [height] at enough; omega)
    | seq p q =>
      simp only [Peg.ground, Bool.and_eq_true, decide_eq_true_eq] at hp
      obtain ⟨⟨hp, hq⟩, small⟩ := hp
      simp only [height] at enough
      rw [run]
      cases first : run rules n p c with
      | ok a d =>
        obtain ⟨k, hk, rfl, some⟩ := run_eq_ok plain ground first
        simp only [Outcome.andThen, ne_eq, map_eq_exhausted]
        refine ih hq ?_
        by_cases eager : p.consumes g
        · have := after hk (some eager) small
          omega
        · have := here k
          simp only [eager] at enough
          simp only [Bool.false_eq_true, if_false] at enough
          omega
      | fail => simp [Outcome.andThen]
      | exhausted => exact absurd first (ih (p := p) hp (by omega))
    | alt p q =>
      simp only [Peg.ground, Bool.and_eq_true] at hp
      simp only [height] at enough
      rw [run]
      cases first : run rules n p c with
      | ok a d => simp [Outcome.orElse]
      | fail => exact ih hp.2 (by omega)
      | exhausted => exact absurd first (ih hp.1 (by omega))
    | star p =>
      simp only [Peg.ground, Bool.and_eq_true, decide_eq_true_eq] at hp
      obtain ⟨⟨hp, eager⟩, small⟩ := hp
      simp only [height] at enough
      rw [run]
      split
      · simp
      · cases first : run rules n p c with
        | ok a d =>
          obtain ⟨k, hk, rfl, some⟩ := run_eq_ok plain ground first
          simp only [ne_eq, map_eq_exhausted]
          refine ih (by simp [Peg.ground, hp, eager, small]) ?_
          have := after hk (some eager) small
          simp only [height]
          omega
        | fail => simp
        | exhausted => exact absurd first (ih (p := p) hp (by omega))
    | opt p =>
      simp only [height] at enough
      rw [run]
      split
      · simp
      · cases first : run rules n p c with
        | ok a d => simp
        | fail => simp
        | exhausted => exact absurd first (ih (p := p) hp (by omega))
    | no p =>
      simp only [height] at enough
      rw [run]
      cases first : run rules n p c with
      | ok a d => simp
      | fail => simp
      | exhausted => exact absurd first (ih (p := p) hp (by omega))
    | map f p =>
      simp only [height] at enough
      rw [run, ne_eq, map_eq_exhausted]
      exact ih (p := p) hp (by omega)
    | located p =>
      simp only [height] at enough
      rw [run, ne_eq, map_eq_exhausted]
      exact ih (p := p) hp (by omega)

/-- The fixed text that an expression starts with, if there is one. -/
def opening? : {α : Type} → Peg R α → Option (List Char)
  | _, .lit text => some text.toList
  | _, .seq p _ => p.opening?
  | _, .map _ p | _, .located p => p.opening?
  | _, .eof | _, .char _ | _, .span _ | _, .call _ | _, .alt _ _ | _, .star _ | _, .opt _
  | _, .no _ => none

/-- An expression matches only where the text is that it starts with. -/
theorem run_of_opening {n : Nat} {α : Type} {p : Peg R α} {c : Cursor} {ts : List Char}
    (opens : p.opening? = some ts) (other : ¬ ts.isPrefixOf c.rest)
    (ends : run rules n p c ≠ .exhausted) : run rules n p c = .fail := by
  induction n generalizing α p with
  | zero => exact absurd (by rw [run]) ends
  | succ n ih =>
    cases p with
    | lit text =>
      cases opens
      rw [run]
      exact if_neg other
    | seq p q =>
      rw [run] at ends ⊢
      have first : run rules n p c = .fail := ih opens fun h => ends (by simp [h, Outcome.andThen])
      simp [first, Outcome.andThen]
    | map f p =>
      rw [run] at ends ⊢
      have inner : run rules n p c = .fail :=
        ih (p := p) opens fun h => ends (by simp [h, Outcome.map])
      simp [inner, Outcome.map]
    | located p =>
      rw [run] at ends ⊢
      have inner : run rules n p c = .fail :=
        ih (p := p) opens fun h => ends (by simp [h, Outcome.map])
      simp [inner, Outcome.map]
    | eof | char | span | call | alt | star | opt | no => cases opens

end Peg
end Stylesheet
