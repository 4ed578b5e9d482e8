/-
# The rules that a match reads

`Peg.trace` goes along with a match and notes the rules that it reads, also those that are read
for another one, in the order in which they start.  What is tried in vain leaves no trace, and
neither does what is only looked at.

`Peg.Traces rules note n p fits` says that whatever `p` reads, with fuel for a depth of at most
`n`, fits its trace.  The rules here say so of an expression from its parts, as those of
`Peg.Reads` do of the values alone.  An expression that calls no rule of which something is noted
(`Peg.quiet`) has no trace (`Peg.trace_of_quiet`).
-/

import Stylesheet.Proofs.Peg.Reads

namespace Stylesheet
namespace Peg

variable {R : Type → Type} {α β ω : Type}

/-- What is noted of a rule that has been read. -/
structure Reading (ω : Type) where
  /-- The place where it starts. -/
  start : Cursor
  /-- What has been read. -/
  value : ω
  /-- The place up to which it has been read. -/
  stop : Cursor

/-- What is noted of the rules that a match reads. -/
def trace (rules : Rules R) (note : (α : Type) → R α → Option (α → ω)) :
    {α : Type} → Nat → Peg R α → Cursor → List (Reading ω)
  | _, 0, _, _ => []
  | _, fuel + 1, p, c =>
    match p with
    | .eof | .lit _ | .char _ | .span _ | .no _ => []
    | .call r =>
      match run rules (fuel + 1) (.call r) c with
      | .ok a d =>
        ((note _ r).map fun f => { start := c, value := f a, stop := d }).toList ++
          trace rules note fuel (rules.body r) c
      | _ => []
    | .seq p q =>
      match run rules fuel p c with
      | .ok _ d => trace rules note fuel p c ++ trace rules note fuel q d
      | _ => []
    | .alt p q =>
      match run rules fuel p c with
      | .ok _ _ => trace rules note fuel p c
      | _ => trace rules note fuel q c
    | .star p =>
      if c.rest.isEmpty then []
      else
        match run rules fuel p c with
        | .ok _ d => trace rules note fuel p c ++ trace rules note fuel (.star p) d
        | _ => []
    | .opt p =>
      if c.rest.isEmpty then []
      else
        match run rules fuel p c with
        | .ok _ _ => trace rules note fuel p c
        | _ => []
    | .map _ p => trace rules note fuel p c
    | .located p => trace rules note fuel p c

variable {rules : Rules R} {note : (α : Type) → R α → Option (α → ω)} {n : Nat}

-- everything below goes by the equations of `trace`
attribute [local simp] trace

/-- **What is in a trace has been read.** -/
theorem of_mem_trace {p : Peg R α} {c : Cursor} {x : Reading ω}
    (h : x ∈ trace rules note n p c) :
    ∃ (β : Type) (r : R β) (f : β → ω) (b : β) (m : Nat), note β r = some f ∧ x.value = f b ∧
      run rules m (.call r) x.start = .ok b x.stop := by
  induction n generalizing α p c with
  | zero => cases h
  | succ n ih =>
    cases p with
    | eof | lit | char | span | no => cases h
    | call r =>
      rw [trace] at h
      split at h
      · rename_i a d read
        rcases List.mem_append.1 h with here | inside
        · obtain ⟨f, noted, rfl⟩ := Option.map_eq_some_iff.1 (Option.mem_toList.1 here)
          exact ⟨_, r, f, a, n + 1, noted, rfl, read⟩
        · exact ih inside
      · cases h
    | seq p q =>
      rw [trace] at h
      split at h
      · exact (List.mem_append.1 h).elim ih ih
      · cases h
    | alt p q =>
      rw [trace] at h
      split at h <;> exact ih h
    | star p =>
      rw [trace] at h
      split at h
      · cases h
      · split at h
        · exact (List.mem_append.1 h).elim ih ih
        · cases h
    | opt p =>
      rw [trace] at h
      split at h
      · cases h
      · split at h
        · exact ih h
        · cases h
    | map f p => exact ih h
    | located p => exact ih h

/-- Whether an expression calls only rules that are not loud. -/
def quiet (loud : (α : Type) → R α → Bool) : {α : Type} → Peg R α → Bool
  | _, .eof | _, .lit _ | _, .char _ | _, .span _ | _, .no _ => true
  | _, .call r => !loud _ r
  | _, .seq p q => p.quiet loud && q.quiet loud
  | _, .alt p q => p.quiet loud && q.quiet loud
  | _, .star p | _, .opt p | _, .map _ p | _, .located p => p.quiet loud

/-- **A quiet match has no trace**, if nothing is noted of the rules that are not loud and these
call no others. -/
theorem trace_of_quiet {loud : (α : Type) → R α → Bool}
    (still : ∀ (α : Type) (r : R α), loud α r = false → note α r = none ∧ (rules.body r).quiet loud)
    {p : Peg R α} (h : p.quiet loud) (c : Cursor) : trace rules note n p c = [] := by
  induction n generalizing α p c with
  | zero => rw [trace]
  | succ n ih =>
    cases p with
    | eof | lit | char | span | no => rw [trace]
    | call r =>
      obtain ⟨unnoted, inside⟩ := still _ r (by simpa [quiet] using h)
      rw [trace]
      split
      · rw [unnoted, ih inside]
        rfl
      · rfl
    | seq p q =>
      obtain ⟨first, second⟩ := Bool.and_eq_true_iff.1 h
      rw [trace]
      split
      · rw [ih first, ih second]
        rfl
      · rfl
    | alt p q =>
      obtain ⟨first, second⟩ := Bool.and_eq_true_iff.1 h
      rw [trace]
      split
      · exact ih first c
      · exact ih second c
    | star p =>
      rw [trace]
      split
      · rfl
      · split
        · rw [ih (p := p) h, ih (p := .star p) h]
          rfl
        · rfl
    | opt p =>
      rw [trace]
      split
      · rfl
      · split
        · exact ih (p := p) h c
        · rfl
    | map f p => exact ih (p := p) h c
    | located p => exact ih (p := p) h c

/-- Whatever an expression reads with fuel for a depth of at most `n` fits its trace. -/
def Traces (rules : Rules R) (note : (α : Type) → R α → Option (α → ω)) (n : Nat) (p : Peg R α)
    (fits : α → List (Reading ω) → Prop) : Prop :=
  ∀ m ≤ n, ∀ c a d, run rules m p c = .ok a d → fits a (trace rules note m p c)

namespace Traces

variable {p : Peg R α} {fits fits' : α → List (Reading ω) → Prop}

/-- A weaker fact holds of a result and its readings. -/
theorem mono (h : Traces rules note n p fits) (imp : ∀ a s, fits a s → fits' a s) :
    Traces rules note n p fits' :=
  fun m hm c a d e => imp a _ (h m hm c a d e)

/-- Nothing is noted where no rule is loud. -/
theorem of_quiet {loud : (α : Type) → R α → Bool}
    (still : ∀ (α : Type) (r : R α), loud α r = false → note α r = none ∧ (rules.body r).quiet loud)
    (h : p.quiet loud) {reads : α → Prop} (read : Reads rules n p reads) :
    Traces rules note n p fun a s => s = [] ∧ reads a :=
  fun m hm c a d e => ⟨trace_of_quiet still h c, read m hm c a d e trivial⟩

/-- A fact about a result passed through a function. -/
theorem map {f : α → β} {fits : β → List (Reading ω) → Prop}
    (h : Traces rules note n p fun a s => fits (f a) s) : Traces rules note n (f <$> p) fits := by
  intro m hm c b d e
  cases m with
  | zero => cases e
  | succ m =>
    obtain ⟨a, ea, rfl⟩ := run_map_eq_ok e
    exact h m (Nat.le_of_succ_le hm) c a d ea

/-- The place of a result may be any. -/
theorem located {fits : Span × α → List (Reading ω) → Prop}
    (h : Traces rules note n p fun a s => ∀ span, fits (span, a) s) :
    Traces rules note n (.located p) fits := by
  intro m hm c sa d e
  cases m with
  | zero => cases e
  | succ m =>
    obtain ⟨a, ea, rfl⟩ := run_located_eq_ok e
    exact h m (Nat.le_of_succ_le hm) c a d ea _

/-- What holds of both parts of a choice holds of the choice. -/
theorem alt {q : Peg R α} (hp : Traces rules note n p fits) (hq : Traces rules note n q fits) :
    Traces rules note n (p <|> q) fits := by
  intro m hm c a d e
  cases m with
  | zero => cases e
  | succ m =>
    have less := Nat.le_of_succ_le hm
    change fits a (trace rules note (m + 1) (.alt p q) c)
    rw [trace]
    rcases run_alt_eq_ok e with first | ⟨failed, second⟩
    · rw [first]
      exact hp m less c a d first
    · rw [failed]
      exact hq m less c a d second

/-- The readings of a sequence are those of its parts, in order. -/
theorem seq {q : Peg R β} {fits' : β → List (Reading ω) → Prop} (hp : Traces rules note n p fits)
    (hq : Traces rules note n q fits') :
    Traces rules note n (.seq p q) fun ab s =>
      ∃ t u, s = t ++ u ∧ fits ab.1 t ∧ fits' ab.2 u := by
  intro m hm c ab d e
  cases m with
  | zero => cases e
  | succ m =>
    have less := Nat.le_of_succ_le hm
    obtain ⟨a, c', b, first, second, rfl⟩ := run_seq_eq_ok e
    refine ⟨_, _, ?_, hp m less c a c' first, hq m less c' b d second⟩
    rw [trace, first]

/-- The readings of a function come before those of its argument. -/
theorem app {g : Peg R (α → β)} {given : (α → β) → List (Reading ω) → Prop}
    {fits' : β → List (Reading ω) → Prop} (hg : Traces rules note n g given)
    (hp : Traces rules note n p fits)
    (both : ∀ f a t u, given f t → fits a u → fits' (f a) (t ++ u)) :
    Traces rules note n (g <*> p) fits' := by
  refine map ((hg.seq hp).mono ?_)
  rintro ⟨f, a⟩ _ ⟨t, u, rfl, hf, ha⟩
  exact both f a t u hf ha

/-- What is repeated leaves one trace after the other. -/
theorem star {all : List α → List (Reading ω) → Prop} (h : Traces rules note n p fits)
    (nil : all [] []) (cons : ∀ a as t u, fits a t → all as u → all (a :: as) (t ++ u)) :
    Traces rules note n (.star p) all := by
  intro m
  induction m with
  | zero =>
    intro _ _ _ _ e
    cases e
  | succ m ih =>
    intro hm c as d e
    have less := Nat.le_of_succ_le hm
    rw [trace]
    rcases run_star_eq_ok e with ⟨rfl, -, done⟩ | ⟨a, c', others, rfl, more, first, rest⟩
    · rcases done with empty | failed
      · rwa [if_pos empty]
      · rw [failed]
        split <;> exact nil
    · rw [if_neg more, first]
      exact cons a others _ _ (h m less c a c' first) (ih less c' others d rest)

/-- A rule leaves the trace of its expression, after what is noted of it. -/
theorem call {r : R α} (plain : rules.Plain) {f : α → ω} (noted : note α r = some f)
    (body : ∀ m < n, Traces rules note m (rules.body r) fun a s =>
      ∀ c d, fits a ({ start := c, value := f a, stop := d } :: s)) :
    Traces rules note n (.call r) fits := by
  intro m hm c a d e
  cases m with
  | zero => cases e
  | succ m =>
    rw [trace, e, noted]
    rw [run, plain] at e
    exact body m hm m (Nat.le_refl m) c a d e c d

/-- A rule that is not noted leaves the readings of its body. -/
theorem call_unnoted {r : R α} (plain : rules.Plain) (unnoted : note α r = none)
    (body : ∀ m < n, Traces rules note m (rules.body r) fits) :
    Traces rules note n (.call r) fits := by
  intro m hm c a d e
  cases m with
  | zero => cases e
  | succ m =>
    rw [trace, e, unnoted]
    rw [run, plain] at e
    exact body m hm m (Nat.le_refl m) c a d e

end Traces
end Peg
end Stylesheet
