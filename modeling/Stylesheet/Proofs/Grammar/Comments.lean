/-
# Where a comment ends

A comment between slash-star and star-slash is read up to the first star-slash after its start,
whatever is around it (`Grammar.gives_loudComment_iff`), and one that starts with two slashes up
to the end of its line (`Grammar.takes_silentComment`).
-/

import Stylesheet.Proofs.Grammar.Leads

namespace Stylesheet
namespace Grammar

variable {file : String} {mark ts rest : List Char} {c : Cursor}

/-! ### The first of a mark -/

/-- Whether a mark that follows a text is the first one: it is nowhere in both of them but at
the end. -/
def EndsFirst (mark ts : List Char) : Prop :=
  ∀ pre post, ts ++ mark = pre ++ mark ++ post → post = []

/-- With nothing before it, a mark is the first one. -/
theorem endsFirst_nil : EndsFirst mark [] := by
  intro pre post e
  have length := congrArg List.length e
  simp only [List.nil_append, List.length_append] at length
  exact List.length_eq_zero_iff.1 (by omega)

/-- A mark is the first one if it is not at the front already and is the first after that. -/
theorem endsFirst_cons {x : Char} :
    EndsFirst mark (x :: ts) ↔ ¬mark <+: x :: (ts ++ mark) ∧ EndsFirst mark ts := by
  constructor
  · refine fun first => ⟨?_, fun pre post e => first (x :: pre) post (by simp [e])⟩
    rintro ⟨post, e⟩
    have none : post = [] := first [] post (by simpa using e.symm)
    have length := congrArg List.length e
    simp only [none, List.length_append, List.length_cons, List.length_nil] at length
    omega
  · rintro ⟨other, first⟩ pre post e
    cases pre with
    | nil => exact absurd ⟨post, by simpa using e.symm⟩ other
    | cons y pre =>
      obtain ⟨-, e⟩ := List.cons.inj (show x :: (ts ++ mark) = y :: (pre ++ mark ++ post) from e)
      exact first pre post e

/-- A mark that is in a text is there for a first time. -/
theorem exists_endsFirst (h : mark <:+: ts) :
    ∃ inner rest, ts = inner ++ mark ++ rest ∧ EndsFirst mark inner := by
  induction ts with
  | nil => exact ⟨[], [], by simp [List.infix_nil.1 h], endsFirst_nil⟩
  | cons x ts ih =>
    by_cases here : mark <+: x :: ts
    · obtain ⟨rest, e⟩ := here
      exact ⟨[], rest, e.symm, endsFirst_nil⟩
    · obtain ⟨inner, rest, rfl, first⟩ := ih ((List.infix_cons_iff.1 h).resolve_left here)
      refine ⟨x :: inner, rest, by simp, endsFirst_cons.2 ⟨?_, first⟩⟩
      exact fun starts => here (starts.trans ⟨rest, by simp⟩)

/-- Whatever is before a mark is read, character by character. -/
theorem takes_until (mark : String) (first : EndsFirst mark.toList ts) (rest : List Char) :
    Takes file (.star ((fun (_, x) => x) <$> .seq (.no (.lit mark)) (.char fun _ => true))) ts
      (mark.toList ++ rest) (· = ts) := by
  induction ts with
  | nil => exact .star_end (.map (.seq (.no fun _ => .lit mark rest)))
  | cons x ts ih =>
    obtain ⟨other, first⟩ := endsFirst_cons.1 first
    have notHere : Fails (.lit mark) ([x] ++ (ts ++ (mark.toList ++ rest))) := by
      refine .lit fun starts => other ?_
      -- what starts the rest of the text is no longer than its start up to the mark
      refine List.prefix_of_prefix_length_le starts ⟨rest, by simp⟩ ?_
      simp only [List.length_cons, List.length_append]
      omega
    have here : Takes file (.seq (.no (.lit mark)) (.char fun _ => true)) [x]
        (ts ++ (mark.toList ++ rest)) (· = ((), x)) :=
      (Takes.no notHere).seq_eq (.char rfl _)
    refine (here.map_eq.star_more (List.cons_ne_nil x []) (ih first)).mono ?_
    rintro _ ⟨_, _, rfl, rfl, rfl⟩
    rfl

/-! ### Comments -/

/-- Whether a text is a comment between slash-star and star-slash. -/
def IsLoud (ts : List Char) : Prop :=
  ∃ inner, ts = ['/', '*'] ++ inner ++ ['*', '/'] ∧ EndsFirst ['*', '/'] inner

/-- A block comment is read up to its first mark of the end, and as a whole. -/
theorem takes_loudComment (h : IsLoud ts) (rest : List Char) :
    Takes file (on .loudComment) ts rest fun _ => True := by
  obtain ⟨inner, rfl, first⟩ := h
  have start : Takes file (.lit "/*") ['/', '*'] (inner ++ (['*', '/'] ++ rest)) (· = ()) :=
    .lit "/*" _
  have text := (start.right (takes_until "*/" first rest)).left (.lit "*/" rest)
  exact .call (.map (.located (.map (text.mono fun _ _ _ => trivial))))

/-- What is read as such a comment starts and ends as one. -/
theorem leads_loudComment : Leads (on .loudComment) fun c _ _ =>
    ∃ body, c.rest = ['/', '*'] ++ body ∧ ['*', '/'] <:+: body := by
  refine .call (.map (.located (.map ((((Leads.lit).right .later).left .lit).mono ?_))))
  rintro c _ _ ⟨_, -, ⟨_, -, ⟨⟨body, e⟩, rfl⟩, k, rfl⟩, ⟨rest, e'⟩, -⟩
  refine ⟨body, e.symm, body.take k, rest, ?_⟩
  have after : (c.skip 2).rest = body := rest_skip_of_eq e.symm
  have here : "*/".toList ++ rest = body.drop k := by simpa [← after] using e'
  rw [List.append_assoc]
  exact here ▸ List.take_append_drop k body

/-- **A comment ends at the first mark.** -/
theorem gives_loudComment_iff (hc : c.rest = ts ++ rest) :
    (∃ n, Gives (on .loudComment) c (.ok n (c.skip ts.length))) ↔ IsLoud ts := by
  constructor
  · rintro ⟨n, gives⟩
    obtain ⟨body, e, marked⟩ := leads_loudComment _ _ _ gives
    obtain ⟨inner, rest', rfl, first⟩ := exists_endsFirst marked
    have loud : IsLoud (['/', '*'] ++ inner ++ ['*', '/']) := ⟨inner, rfl, first⟩
    have split : c.rest = ['/', '*'] ++ inner ++ ['*', '/'] ++ rest' := by simp [e]
    obtain ⟨m, -, gives'⟩ := takes_loudComment loud rest' c rfl split
    -- the match goes to one place only, so as much is read as there is up to the mark
    have place := congrArg Cursor.left (Outcome.ok.inj (gives.unique gives')).2
    have length : ts.length = (['/', '*'] ++ inner ++ ['*', '/']).length := by
      have whole := congrArg List.length split
      have whole' := congrArg List.length hc
      simp only [Cursor.skip, c.left_eq] at place
      simp only [List.length_append] at place whole whole' ⊢
      omega
    exact (List.append_inj (hc.symm.trans split) length).1 ▸ loud
  · intro loud
    obtain ⟨n, -, gives⟩ := takes_loudComment loud rest c rfl hc
    exact ⟨n, gives⟩

/-- A line comment is read up to the line break. -/
theorem takes_silentComment (unbroken : '\n' ∉ ts) (rest : List Char) :
    Takes file (on .silentComment) (['/', '/'] ++ ts) ('\n' :: rest) fun _ => True := by
  have text : Takes file (.span (· != '\n')) ts ('\n' :: rest) (· = ts) :=
    .span (fun x hx => bne_iff_ne.2 fun e => unbroken (e ▸ hx)) (by simp)
  have start : Takes file (.lit "//") ['/', '/'] (ts ++ '\n' :: rest) (· = ()) := .lit "//" _
  exact .call (.map (.located (.map ((start.right text).mono fun _ _ _ => trivial))))

end Grammar
end Stylesheet
