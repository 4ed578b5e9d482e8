/-
# What a match has gone through

`Grammar.Leads p fits` says of every match of `p` that it goes from a place to another as
`fits` has it, with the value that it reads.  The rules here say so of an expression from its
parts; the places where these are matched are somewhere after the start (`Cursor.Later`).
-/

import Stylesheet.Proofs.Grammar.Texts
import Stylesheet.Proofs.Peg.Reads

namespace Stylesheet

namespace Cursor

/-- Whether a place comes after another one in a text, or is it. -/
def Later (c d : Cursor) : Prop :=
  ∃ k, d = c.skip k

/-- Reading nothing leads to the same place. -/
theorem Later.refl (c : Cursor) : c.Later c :=
  ⟨0, c.skip_zero.symm⟩

/-- Reading on from a later place leads to a later place. -/
theorem Later.trans {c d e : Cursor} (h : c.Later d) (h' : d.Later e) : c.Later e := by
  obtain ⟨k, rfl⟩ := h
  obtain ⟨l, rfl⟩ := h'
  exact ⟨k + l, c.skip_skip k l⟩

/-- The place in a text after some characters. -/
def after (file : String) (before rest : List Char) : Cursor :=
  { start file rest with line := before.count '\n' + 1 }

/-- Skipping a part of the text moves it to what is before the cursor. -/
theorem skip_after (file : String) (before ts rest : List Char) :
    (after file before (ts ++ rest)).skip ts.length = after file (before ++ ts) rest := by
  simp only [skip, after, start, Cursor.mk.injEq, List.take_left, List.drop_left, List.count_append,
    List.length_append, true_and]
  omega

/-- What comes after the start of a text is a place in it. -/
theorem Later.exists_after {file : String} {text : List Char} {c : Cursor}
    (h : (start file text).Later c) :
    ∃ before rest, text = before ++ rest ∧ c = .after file before rest := by
  obtain ⟨k, rfl⟩ := h
  refine ⟨text.take k, text.drop k, (List.take_append_drop k text).symm, ?_⟩
  simp only [start, skip, after, Cursor.mk.injEq, List.length_drop, true_and, and_true]
  exact Nat.add_comm _ _

end Cursor

namespace Grammar

variable {α β : Type} {p : Peg Rule α} {q : Peg Rule β} {fits : Cursor → α → Cursor → Prop}
  {c d : Cursor}

/-- Whatever is read between two places fits them. -/
def Leads (p : Peg Rule α) (fits : Cursor → α → Cursor → Prop) : Prop :=
  ∀ c a d, Gives p c (.ok a d) → fits c a d

/-- A match that ends has been made with fuel for something. -/
theorem Gives.exists_run {a : α} (h : Gives p c (.ok a d)) :
    ∃ n, Peg.run unaided (n + 1) p c = .ok a d := by
  obtain ⟨-, n, run⟩ := h
  cases n with
  | zero => cases run
  | succ n => exact ⟨n, run⟩

/-- What a run gives, the expression gives. -/
theorem Gives.of_run {n : Nat} {a : α} (h : Peg.run unaided n p c = .ok a d) :
    Gives p c (.ok a d) :=
  ⟨by simp, n, h⟩

/-- A match goes on in the text. -/
theorem Gives.later {a : α} (h : Gives p c (.ok a d)) : c.Later d := by
  obtain ⟨n, run⟩ := h.exists_run
  obtain ⟨k, -, e, -⟩ := Peg.run_eq_ok unaided_plain ground_ranks run
  exact ⟨k, e⟩

/-- What two alternatives come to: what the first one does, or else what the second one does. -/
theorem Gives.alt_cases {q : Peg Rule α} {a : α} (h : Gives (p <|> q) c (.ok a d)) :
    Gives p c (.ok a d) ∨ Gives p c .fail ∧ Gives q c (.ok a d) := by
  obtain ⟨n, run⟩ := h.exists_run
  rcases Peg.run_alt_eq_ok run with first | ⟨failed, second⟩
  · exact .inl (.of_run first)
  · exact .inr ⟨⟨by simp, n, failed⟩, .of_run second⟩

/-- What reads something does so before the end. -/
theorem Gives.rest_ne_nil {a : α} (h : Gives p c (.ok a d)) (reads : p.consumes ranks) :
    c.rest ≠ [] := by
  obtain ⟨n, run⟩ := h.exists_run
  obtain ⟨k, le, -, some⟩ := Peg.run_eq_ok unaided_plain ground_ranks run
  rw [← List.length_pos_iff, ← c.left_eq]
  exact Nat.lt_of_lt_of_le (some reads) le

namespace Leads

/-- A weaker fact holds of all that an expression reads. -/
theorem mono {fits' : Cursor → α → Cursor → Prop} (h : Leads p fits)
    (imp : ∀ c a d, fits c a d → fits' c a d) : Leads p fits' :=
  fun c a d e => imp c a d (h c a d e)

/-- An expression only moves forward. -/
theorem later : Leads p fun c _ d => c.Later d :=
  fun _ _ _ e => e.later

/-- Two facts about what an expression reads hold together. -/
theorem and {fits' : Cursor → α → Cursor → Prop} (h : Leads p fits) (h' : Leads p fits') :
    Leads p fun c a d => fits c a d ∧ fits' c a d :=
  fun c a d e => ⟨h c a d e, h' c a d e⟩

/-- A literal is read only where it stands. -/
theorem lit {text : String} : Leads (.lit text) fun c _ d =>
    text.toList <+: c.rest ∧ d = c.skip text.toList.length := by
  intro c a d h
  obtain ⟨n, run⟩ := h.exists_run
  rw [Peg.run] at run
  split at run
  · rename_i starts
    cases run
    exact ⟨List.isPrefixOf_iff_prefix.1 starts, rfl⟩
  · cases run

/-- A character is read only if it stands there and is of the class. -/
theorem char {f : Char → Bool} : Leads (.char f) fun c x _ => f x = true ∧ [x] <+: c.rest := by
  intro c x d h
  obtain ⟨n, run⟩ := h.exists_run
  rw [Peg.run] at run
  split at run
  · rename_i y rest here
    split at run
    · rename_i fits
      cases run
      exact ⟨fits, rest, here.symm⟩
    · cases run
  · cases run

/-- A span reads the characters of the class that follow, and no more. -/
theorem span {f : Char → Bool} : Leads (.span f) fun c a d =>
    a = c.rest.takeWhile f ∧ d = c.skip a.length := by
  intro c a d h
  obtain ⟨n, run⟩ := h.exists_run
  rw [Peg.run] at run
  cases run
  exact ⟨rfl, rfl⟩

/-- What holds of a rule's body holds of the rule. -/
theorem call {r : Rule α} (h : Leads (body r) fits) : Leads (on r) fits := by
  intro c a d e
  obtain ⟨n, run⟩ := e.exists_run
  rw [Peg.run, unaided_plain] at run
  exact h c a d (.of_run run)

/-- A fact about a result passed through a function. -/
theorem map {f : α → β} {fits : Cursor → β → Cursor → Prop}
    (h : Leads p fun c a d => fits c (f a) d) : Leads (f <$> p) fits := by
  intro c b d e
  obtain ⟨n, run⟩ := e.exists_run
  obtain ⟨a, inner, rfl⟩ := Peg.run_map_eq_ok run
  exact h c a d (.of_run inner)

/-- A fact about a result with the place where its reading began. -/
theorem located {fits : Cursor → Span × α → Cursor → Prop}
    (h : Leads p fun c a d => fits c ({ file := c.file, line := c.line }, a) d) :
    Leads (.located p) fits := by
  intro c b d e
  obtain ⟨n, run⟩ := e.exists_run
  obtain ⟨a, inner, rfl⟩ := Peg.run_located_eq_ok run
  exact h c a d (.of_run inner)

/-- What holds of both parts of a choice holds of the choice. -/
theorem alt {q : Peg Rule α} (hp : Leads p fits) (hq : Leads q fits) : Leads (p <|> q) fits :=
  fun c a d e => e.alt_cases.elim (hp c a d) fun h => hq c a d h.2

/-- Nothing is read where something does not match. -/
theorem no : Leads (.no p) fun c _ d => Gives p c .fail ∧ d = c := by
  intro c _ d h
  obtain ⟨n, run⟩ := h.exists_run
  obtain ⟨failed, rfl⟩ := Peg.run_no_eq_ok run
  exact ⟨⟨by simp, n, failed⟩, rfl⟩

/-- The second part of a sequence begins where the first ends. -/
theorem seq {fits' : Cursor → β → Cursor → Prop} (hp : Leads p fits) (hq : Leads q fits') :
    Leads (.seq p q) fun c ab d => ∃ e, fits c ab.1 e ∧ fits' e ab.2 d := by
  intro c ab d h
  obtain ⟨n, run⟩ := h.exists_run
  obtain ⟨a, e, b, first, second, rfl⟩ := Peg.run_seq_eq_ok run
  exact ⟨e, hp c a e (.of_run first), hq e b d (.of_run second)⟩

/-- As in `seq`, for a function and its argument. -/
theorem app {g : Peg Rule (α → β)} {fits : Cursor → (α → β) → Cursor → Prop}
    {fits' : Cursor → α → Cursor → Prop} (hg : Leads g fits) (hp : Leads p fits') :
    Leads (g <*> p) fun c b d => ∃ f a e, b = f a ∧ fits c f e ∧ fits' e a d :=
  map ((hg.seq hp).mono fun _ fa _ ⟨e, hf, ha⟩ => ⟨fa.1, fa.2, e, rfl, hf, ha⟩)

/-- As in `seq`, with the result of the first part. -/
theorem left {fits' : Cursor → β → Cursor → Prop} (hp : Leads p fits) (hq : Leads q fits') :
    Leads (p <* q) fun c a d => ∃ e b, fits c a e ∧ fits' e b d :=
  map ((hp.seq hq).mono fun _ ab _ ⟨e, ha, hb⟩ => ⟨e, ab.2, ha, hb⟩)

/-- As in `seq`, with the result of the second part. -/
theorem right {fits' : Cursor → β → Cursor → Prop} (hp : Leads p fits) (hq : Leads q fits') :
    Leads (p *> q) fun c b d => ∃ e a, fits c a e ∧ fits' e b d :=
  map ((hp.seq hq).mono fun _ ab _ ⟨e, ha, hb⟩ => ⟨e, ab.1, ha, hb⟩)

/-- The first character of a run. -/
theorem spanOne {f : Char → Bool} : Leads (.spanOne f) fun c xs _ =>
    ∃ x, f x = true ∧ [x] <+: c.rest ∧ [x] <+: xs := by
  refine map ((char.seq later).mono ?_)
  rintro c ⟨x, xs⟩ - ⟨-, ⟨fits, here⟩, -⟩
  exact ⟨x, fits, here, xs, rfl⟩

/-- The first of what is read at least once. -/
theorem plus (h : Leads p fits) : Leads (.plus p) fun c as _ =>
    ∃ a others e, as = a :: others ∧ fits c a e := by
  refine map ((no.seq (h.seq later)).mono ?_)
  rintro c ⟨_, a, others⟩ - ⟨_, ⟨-, rfl⟩, e, first, -⟩
  exact ⟨a, others, e, rfl, first⟩

/-- What is made of anything. -/
theorem given {f : α → β} {fits : β → Prop} (h : ∀ a, fits (f a)) :
    Leads (f <$> p) fun _ b _ => fits b :=
  map fun _ a _ _ => h a

/-- What is made of anything, applied to anything. -/
theorem app_any {g : Peg Rule (α → β)} {fits : β → Prop}
    (hg : Leads g fun _ f _ => ∀ a, fits (f a)) : Leads (g <*> p) fun _ b _ => fits b := by
  refine (hg.app later).mono ?_
  rintro _ _ _ ⟨f, a, _, rfl, hf, -⟩
  exact hf a

/-- What is repeated starts each time at a place of a kind that it leads to. -/
theorem star {good : Cursor → Prop} (keeps : Leads p fun c _ d => good c → good d) :
    Leads (.star p) fun c as _ => good c →
      ∀ a ∈ as, ∃ e d, c.Later e ∧ good e ∧ Gives p e (.ok a d) := by
  intro c as d h
  obtain ⟨-, n, run⟩ := h
  induction n generalizing c as with
  | zero => cases run
  | succ n ih =>
    intro start
    rcases Peg.run_star_eq_ok run with ⟨rfl, -⟩ | ⟨a, e, others, rfl, -, first, more⟩
    · exact List.forall_mem_nil _
    · have here : Gives p c (.ok a e) := .of_run first
      refine List.forall_mem_cons.2 ⟨⟨c, e, .refl c, start, here⟩, fun b hb => ?_⟩
      obtain ⟨e', d', after, good', gives⟩ := ih e others more (keeps c a e here start) b hb
      exact ⟨e', d', here.later.trans after, good', gives⟩

end Leads
end Grammar
end Stylesheet
