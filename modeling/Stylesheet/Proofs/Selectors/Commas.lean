/-
# Commas between selectors

A list of selectors is split at the commas that stand outside brackets.  A text without such a
comma is one piece (`Selector.Unbroken`), and texts that are one piece each can be told apart
again once they are joined by commas if each of them but the last closes all its brackets
(`Selector.Separable`).  So the members of every list are separable (`Selector.separable_splitChars`),
and separable texts with commas between them are split into these texts
(`Selector.splitChars_intercalate`).  The blanks of a text do not matter: how brackets stand depends
on its other characters only.
-/

import Stylesheet.Proofs.Selectors
import Mathlib.Data.List.Pairwise

namespace Stylesheet
namespace Selector

open Text

variable {n : Nat} {c : Char} {cs ds s : List Char} {ss : List (List Char)}

/-- The depth of brackets after a text. -/
def depthFrom (n : Nat) (cs : List Char) : Nat :=
  cs.foldl depthAfter n

/-- Whether no comma of a text is outside brackets, `n` of which are open before it. -/
def Unbroken (n : Nat) (cs : List Char) : Prop :=
  ∀ before after, cs = before ++ ',' :: after → depthFrom n before ≠ 0

/-- Whether texts are one piece each, and each of them that another one follows closes all its
brackets. -/
structure Separable (ss : List (List Char)) : Prop where
  unbroken : ∀ s ∈ ss, Unbroken 0 s
  closed : ss.Pairwise fun s _ => depthFrom 0 s = 0

/-- Texts are separable if each is one piece and closes its brackets. -/
theorem separable_of_closed (h : ∀ s ∈ ss, Unbroken 0 s ∧ depthFrom 0 s = 0) : Separable ss :=
  ⟨fun s hs => (h s hs).1, List.pairwise_of_forall_mem_list fun s hs _ _ => (h s hs).2⟩

@[simp] theorem unbroken_nil (n : Nat) : Unbroken n [] := by
  intro before after e
  simp at e

/-- A text is one piece if it starts with no such comma and goes on as one piece. -/
theorem unbroken_cons :
    Unbroken n (c :: cs) ↔ ¬(c = ',' ∧ n = 0) ∧ Unbroken (depthAfter n c) cs := by
  constructor
  · intro h
    refine ⟨?_, fun before after e => h (c :: before) after (by rw [e]; rfl)⟩
    rintro ⟨rfl, rfl⟩
    exact h [] cs rfl rfl
  · rintro ⟨here, later⟩ before after e
    cases before with
    | nil =>
      obtain ⟨rfl, -⟩ := List.cons.inj e
      exact fun zero => here ⟨rfl, zero⟩
    | cons d before =>
      obtain ⟨rfl, rest⟩ := List.cons.inj e
      exact later before after rest

/-- Two texts are one piece, one after the other, if the second is one after the first. -/
theorem unbroken_append :
    Unbroken n (cs ++ ds) ↔ Unbroken n cs ∧ Unbroken (depthFrom n cs) ds := by
  induction cs generalizing n with
  | nil => simp [depthFrom]
  | cons c cs ih =>
    rw [List.cons_append, unbroken_cons, unbroken_cons, ih, and_assoc]
    rfl

/-- Whether a text is one piece is decided character by character. -/
instance decidableUnbroken : (n : Nat) → (cs : List Char) → Decidable (Unbroken n cs)
  | n, [] => isTrue (unbroken_nil n)
  | n, c :: cs =>
    have := decidableUnbroken (depthAfter n c) cs
    decidable_of_iff _ unbroken_cons.symm

/-! ### Blanks -/

/-- A blank is no bracket. -/
theorem not_bracket_of_blank (blank : isBlank c = true) :
    c ≠ '(' ∧ c ≠ '[' ∧ c ≠ ')' ∧ c ≠ ']' := by
  have brackets : ∀ c ∈ ['(', '[', ')', ']'], isBlank c = false := by decide
  have other : c ∉ ['(', '[', ')', ']'] := fun mem => by simp [brackets c mem] at blank
  simpa only [List.mem_cons, List.not_mem_nil, or_false, not_or] using other

/-- A blank changes no depth. -/
theorem depthAfter_of_blank (blank : isBlank c = true) (n : Nat) : depthAfter n c = n := by
  simp [depthAfter, not_bracket_of_blank blank]

/-- A blank is no comma. -/
theorem ne_comma_of_blank (blank : isBlank c = true) : c ≠ ',' := by
  rintro rfl
  exact absurd blank (by decide)

/-- The depth comes from what is not blank. -/
theorem depthFrom_black (n : Nat) (cs : List Char) : depthFrom n (black cs) = depthFrom n cs := by
  induction cs generalizing n with
  | nil => rfl
  | cons c cs ih =>
    cases blank : isBlank c with
    | false =>
      rw [black_cons_of_not_blank blank]
      exact ih (depthAfter n c)
    | true =>
      rw [black_cons_of_blank blank, ih, depthFrom, depthFrom, List.foldl_cons,
        depthAfter_of_blank blank]

/-- Where the commas are comes from what is not blank. -/
theorem unbroken_black : Unbroken n (black cs) ↔ Unbroken n cs := by
  induction cs generalizing n with
  | nil => rfl
  | cons c cs ih =>
    cases blank : isBlank c with
    | false => rw [black_cons_of_not_blank blank, unbroken_cons, unbroken_cons, ih]
    | true =>
      rw [black_cons_of_blank blank, unbroken_cons, ih, depthAfter_of_blank blank]
      simp [ne_comma_of_blank blank]

/-- Texts that differ in blanks alone come to the same depth. -/
theorem depthFrom_congr (same : black cs = black ds) (n : Nat) :
    depthFrom n cs = depthFrom n ds := by
  rw [← depthFrom_black, same, depthFrom_black]

/-- Texts that differ in blanks alone have their commas at the same depths. -/
theorem unbroken_congr (same : black cs = black ds) : Unbroken n cs ↔ Unbroken n ds := by
  rw [← unbroken_black, same, unbroken_black]

/-- Blanks make texts neither more nor less separable. -/
theorem separable_map_collapseChars : Separable (ss.map collapseChars) ↔ Separable ss := by
  have each (s : List Char) : Unbroken 0 (collapseChars s) ↔ Unbroken 0 s :=
    unbroken_congr (black_collapseChars s)
  have ends (s : List Char) : depthFrom 0 (collapseChars s) = depthFrom 0 s :=
    depthFrom_congr (black_collapseChars s) 0
  constructor
  · rintro ⟨unbroken, closed⟩
    rw [List.pairwise_map] at closed
    exact ⟨fun s hs => (each s).1 (unbroken _ (List.mem_map_of_mem hs)),
      closed.imp fun h => (ends _).symm.trans h⟩
  · rintro ⟨unbroken, closed⟩
    refine ⟨fun s hs => ?_, List.pairwise_map.2 (closed.imp fun h => (ends _).trans h)⟩
    obtain ⟨t, ht, rfl⟩ := List.mem_map.1 hs
    exact (each t).2 (unbroken t ht)

/-! ### Pieces -/

/-- A text that is one piece starts the first piece. -/
theorem pieces_append (h : Unbroken n cs) (rest : List Char) :
    pieces n (cs ++ rest) =
      (cs ++ (pieces (depthFrom n cs) rest).1, (pieces (depthFrom n cs) rest).2) := by
  induction cs generalizing n with
  | nil => rfl
  | cons c cs ih =>
    obtain ⟨here, later⟩ := unbroken_cons.1 h
    rw [List.cons_append, pieces, if_neg (by simpa using here), ih later]
    rfl

/-- A text that is one piece has one member, or none if it is blank. -/
theorem splitChars_of_unbroken (h : Unbroken 0 s) :
    splitChars s = [collapseChars s].filter (· ≠ []) := by
  have one : pieces 0 s = (s, []) := by simpa [pieces] using pieces_append h []
  rw [splitChars, one]
  rfl

/-- A comma at no depth ends a member. -/
theorem splitChars_append_comma (h : Unbroken 0 s) (closed : depthFrom 0 s = 0)
    (rest : List Char) : splitChars (s ++ ',' :: rest) =
      [collapseChars s].filter (· ≠ []) ++ splitChars rest := by
  have cut : pieces 0 (s ++ ',' :: rest) = (s, (pieces 0 rest).1 :: (pieces 0 rest).2) := by
    rw [pieces_append h, closed, pieces, if_pos (by simp)]
    simp
  rw [splitChars, cut, splitChars, ← List.filter_append]
  rfl

/-- The pieces of a text are one piece each, and where it is cut all brackets are closed. -/
theorem separable_pieces (n : Nat) (cs : List Char) :
    Unbroken n (pieces n cs).1 ∧ ((pieces n cs).2 ≠ [] → depthFrom n (pieces n cs).1 = 0) ∧
      Separable (pieces n cs).2 := by
  induction cs generalizing n with
  | nil => exact ⟨unbroken_nil n, fun none => absurd rfl none, ⟨by simp [pieces], by simp [pieces]⟩⟩
  | cons c cs ih =>
    rw [pieces]
    split
    · rename_i comma
      have zero : n = 0 := by
        simp only [Bool.and_eq_true, decide_eq_true_eq] at comma
        exact comma.2
      obtain ⟨first, closed, others⟩ := ih 0
      refine ⟨unbroken_nil n, fun _ => zero, ?_, List.pairwise_cons.2 ⟨fun s hs => ?_, others.closed⟩⟩
      · exact List.forall_mem_cons.2 ⟨first, others.unbroken⟩
      · exact closed (List.ne_nil_of_mem hs)
    · rename_i comma
      obtain ⟨first, closed, others⟩ := ih (depthAfter n c)
      exact ⟨unbroken_cons.2 ⟨by simpa using comma, first⟩, closed, others⟩

/-- **The members of a list of selectors are separable.** -/
theorem separable_splitChars (text : List Char) : Separable (splitChars text) := by
  obtain ⟨first, closed, others⟩ := separable_pieces 0 text
  have all : Separable ((pieces 0 text).1 :: (pieces 0 text).2) :=
    ⟨List.forall_mem_cons.2 ⟨first, others.unbroken⟩,
      List.pairwise_cons.2 ⟨fun s hs => closed (List.ne_nil_of_mem hs), others.closed⟩⟩
  have members := separable_map_collapseChars.2 all
  refine ⟨fun s hs => members.unbroken s (List.mem_filter.1 hs).1, ?_⟩
  unfold splitChars
  exact members.closed.filter _

/-- **Separable texts are the members of the list that they make** when commas stand between them,
up to their blanks. -/
theorem splitChars_intercalate {g g' : List Char} (h : Separable ss) (blank : Blanks g)
    (blank' : Blanks g') : splitChars ((',' :: g).intercalate ss ++ g') =
      (ss.map collapseChars).filter (· ≠ []) := by
  -- the blanks after a comma belong to the next member
  have from_blanks {g₀ : List Char} (blank₀ : Blanks g₀) :
      splitChars (g₀ ++ ((',' :: g).intercalate ss ++ g')) =
        (ss.map collapseChars).filter (· ≠ []) := by
    induction ss generalizing g₀ with
    | nil =>
      have unbroken : Unbroken 0 (g₀ ++ ([] ++ g')) :=
        (unbroken_congr (black_around blank₀ blank' [])).2 (unbroken_nil 0)
      rw [List.intercalate_nil, splitChars_of_unbroken unbroken, collapseChars_around blank₀ blank']
      rfl
    | cons s ss ih =>
      obtain ⟨first, others⟩ := List.forall_mem_cons.1 h.unbroken
      obtain ⟨closed, closeds⟩ := List.pairwise_cons.1 h.closed
      cases ss with
      | nil =>
        have unbroken : Unbroken 0 (g₀ ++ (s ++ g')) :=
          (unbroken_congr (black_around blank₀ blank' s)).2 first
        rw [List.intercalate_singleton, splitChars_of_unbroken unbroken,
          collapseChars_around blank₀ blank']
        rfl
      | cons t ss =>
        have same := black_around blank₀ (List.forall_mem_nil _) s
        have collapsed := collapseChars_around blank₀ (List.forall_mem_nil _) s
        rw [List.append_nil] at same collapsed
        have text : g₀ ++ ((',' :: g).intercalate (s :: t :: ss) ++ g') =
            g₀ ++ s ++ ',' :: (g ++ ((',' :: g).intercalate (t :: ss) ++ g')) := by simp
        have cut := closed t List.mem_cons_self
        rw [text, splitChars_append_comma ((unbroken_congr same).2 first)
          ((depthFrom_congr same 0).trans cut), ih ⟨others, closeds⟩ blank, collapsed,
          ← List.filter_append]
        rfl
  exact from_blanks (List.forall_mem_nil _)

/-- Separable texts whose blanks are collapsed are the members of the list that they make. -/
theorem splitChars_intercalate_eq {g g' : List Char} (h : Separable ss)
    (collapsed : ∀ s ∈ ss, s ≠ [] ∧ collapseChars s = s) (blank : Blanks g) (blank' : Blanks g') :
    splitChars ((',' :: g).intercalate ss ++ g') = ss := by
  have same : ss.map collapseChars = ss :=
    (List.map_congr_left fun s hs => (collapsed s hs).2).trans (List.map_id ss)
  rw [splitChars_intercalate h blank blank', same, List.filter_eq_self]
  exact fun s hs => by simpa using (collapsed s hs).1

/-- Whether a text has no comma and no brackets. -/
def IsWhole (cs : List Char) : Prop :=
  ∀ x ∈ cs, x ∉ [',', '(', ')', '[', ']']

/-- Without commas and brackets, a text is one piece and changes no depth. -/
theorem unbroken_of_isWhole (whole : IsWhole cs) : Unbroken n cs ∧ depthFrom n cs = n := by
  induction cs with
  | nil => exact ⟨unbroken_nil n, rfl⟩
  | cons c cs ih =>
    obtain ⟨hc, hcs⟩ := List.forall_mem_cons.1 whole
    simp only [List.mem_cons, List.not_mem_nil, or_false, not_or] at hc
    have depth : depthAfter n c = n := by simp [depthAfter, hc]
    rw [unbroken_cons, depthFrom, List.foldl_cons, depth]
    exact ⟨⟨fun comma => hc.1 comma.1, (ih hcs).1⟩, (ih hcs).2⟩

/-- Texts without commas and brackets are separable. -/
theorem separable_of_isWhole (whole : ∀ s ∈ ss, IsWhole s) : Separable ss :=
  separable_of_closed fun s hs => unbroken_of_isWhole (whole s hs)

end Selector
end Stylesheet
