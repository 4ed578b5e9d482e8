/-
# What a parsing expression reads

`Peg.Reads rules n p fits` says that whatever `p` reads, with fuel for a depth of at most
`n`, fits.  The rules here say so of an expression from its parts; a rule of the grammar
reads what fits if its expression does with less fuel.

What is read may have to start at a place of some kind (`Peg.ReadsFrom`), as long as a match
that starts at such a place ends at one (`Peg.Lasting`).
-/

import Stylesheet.Proofs.Peg.Fuel

namespace Stylesheet
namespace Peg

variable {R : Type → Type} {rules : Rules R} {n : Nat} {α β : Type}

/-- A match that starts at a good place ends at one. -/
class Lasting (good : Cursor → Prop) (rules : Rules R) : Prop where
  last : ∀ {α : Type} {m : Nat} {p : Peg R α} {c : Cursor} {a : α} {d : Cursor},
    run rules m p c = .ok a d → good c → good d

instance lasting_anywhere : Lasting (fun _ => True) rules :=
  ⟨fun _ _ => trivial⟩

/-- Whatever an expression reads from a good place, with fuel for a depth of at most `n`,
fits. -/
def ReadsFrom (good : Cursor → Prop) (rules : Rules R) (n : Nat) (p : Peg R α)
    (fits : α → Prop) : Prop :=
  ∀ m ≤ n, ∀ c a d, run rules m p c = .ok a d → good c → fits a

/-- Whatever an expression reads with fuel for a depth of at most `n` fits. -/
abbrev Reads (rules : Rules R) (n : Nat) (p : Peg R α) (fits : α → Prop) : Prop :=
  ReadsFrom (fun _ => True) rules n p fits

namespace ReadsFrom

variable {good : Cursor → Prop} {p : Peg R α} {fits fits' : α → Prop}

/-- Nothing is claimed of what is read. -/
theorem any : ReadsFrom good rules n p fun _ => True :=
  fun _ _ _ _ _ _ _ => trivial

/-- A weaker fact holds of what is read. -/
theorem mono (h : ReadsFrom good rules n p fits) (imp : ∀ a, fits a → fits' a) :
    ReadsFrom good rules n p fits' :=
  fun m hm c a d e start => imp a (h m hm c a d e start)

/-- A fact about a result passed through a function. -/
theorem map {f : α → β} {fits : β → Prop} (h : ReadsFrom good rules n p fun a => fits (f a)) :
    ReadsFrom good rules n (f <$> p) fits := by
  intro m hm c b d e start
  cases m with
  | zero => cases e
  | succ m =>
    obtain ⟨a, ea, rfl⟩ := run_map_eq_ok e
    exact h m (Nat.le_of_succ_le hm) c a d ea start

/-- What holds of both parts of a choice holds of the choice. -/
theorem alt {q : Peg R α} (hp : ReadsFrom good rules n p fits)
    (hq : ReadsFrom good rules n q fits) : ReadsFrom good rules n (p <|> q) fits := by
  intro m hm c a d e start
  cases m with
  | zero => cases e
  | succ m =>
    have less := Nat.le_of_succ_le hm
    rcases run_alt_eq_ok e with first | ⟨-, second⟩
    · exact hp m less c a d first start
    · exact hq m less c a d second start

/-- What holds of a part holds of it where it is optional. -/
theorem opt (h : ReadsFrom good rules n p fits) :
    ReadsFrom good rules n (.opt p) fun o => ∀ a ∈ o, fits a := by
  intro m hm c o d e start
  cases m with
  | zero => cases e
  | succ m =>
    rcases run_opt_eq_ok e with ⟨rfl, -⟩ | ⟨a, rfl, first⟩
    · exact fun a ha => absurd ha (Option.not_mem_none a)
    · intro b hb
      exact Option.mem_some_iff.1 hb ▸ h m (Nat.le_of_succ_le hm) c a d first start

/-- What is read with its place. -/
theorem located_at {fits : Span × α → Prop}
    (h : ReadsFrom good rules n p fun a =>
      ∀ c, good c → fits ({ file := c.file, line := c.line }, a)) :
    ReadsFrom good rules n (.located p) fits := by
  intro m hm c sa d e start
  cases m with
  | zero => cases e
  | succ m =>
    obtain ⟨a, ea, rfl⟩ := run_located_eq_ok e
    exact h m (Nat.le_of_succ_le hm) c a d ea start c start

/-- The place of a result may be any. -/
theorem located {fits : Span × α → Prop}
    (h : ReadsFrom good rules n p fun a => ∀ s, fits (s, a)) :
    ReadsFrom good rules n (.located p) fits :=
  located_at (h.mono fun _ fit _ _ => fit _)

/-- A rule, of which all that is known beforehand fits, too. -/
theorem call {r : R α} (known : ∀ c a d, rules.known r c = some (.ok a d) → fits a)
    (body : ∀ m < n, ReadsFrom good rules m (rules.body r) fits) :
    ReadsFrom good rules n (.call r) fits := by
  intro m hm c a d e start
  cases m with
  | zero => cases e
  | succ m =>
    rw [run] at e
    split at e
    · rename_i o found
      exact known c a d (e ▸ found)
    · exact body m hm m (Nat.le_refl m) c a d e start

variable [Lasting good rules]

/-- Both parts of a sequence are read. -/
theorem seq {q : Peg R β} {fits' : β → Prop} (hp : ReadsFrom good rules n p fits)
    (hq : ReadsFrom good rules n q fits') :
    ReadsFrom good rules n (.seq p q) fun ab => fits ab.1 ∧ fits' ab.2 := by
  intro m hm c ab d e start
  cases m with
  | zero => cases e
  | succ m =>
    have less := Nat.le_of_succ_le hm
    obtain ⟨a, c', b, first, second, rfl⟩ := run_seq_eq_ok e
    exact ⟨hp m less c a c' first start, hq m less c' b d second (Lasting.last first start)⟩

/-- A function and its argument are read. -/
theorem app {g : Peg R (α → β)} {fits' : β → Prop} (hp : ReadsFrom good rules n p fits)
    (hg : ReadsFrom good rules n g fun f => ∀ a, fits a → fits' (f a)) :
    ReadsFrom good rules n (g <*> p) fits' :=
  map ((hg.seq hp).mono fun fa h => h.1 fa.2 h.2)

/-- An application to something that does not matter. -/
theorem app_any {g : Peg R (α → β)} {fits : β → Prop}
    (hg : ReadsFrom good rules n g fun f => ∀ a, fits (f a)) :
    ReadsFrom good rules n (g <*> p) fits :=
  any.app (hg.mono fun _ h a _ => h a)

/-- As `seq`, with the result of the first part. -/
theorem left {q : Peg R β} (h : ReadsFrom good rules n p fits) :
    ReadsFrom good rules n (p <* q) fits :=
  map ((h.seq any).mono fun _ h => h.1)

/-- As `seq`, with the result of the second part. -/
theorem right {q : Peg R β} {fits : β → Prop} (h : ReadsFrom good rules n q fits) :
    ReadsFrom good rules n (p *> q) fits :=
  map ((any.seq h).mono fun _ h => h.2)

/-- What holds of the body of a repetition holds of all that is read. -/
theorem star (h : ReadsFrom good rules n p fits) :
    ReadsFrom good rules n (.star p) fun as => ∀ a ∈ as, fits a := by
  intro m
  induction m with
  | zero =>
    intro _ _ _ _ e
    cases e
  | succ m ih =>
    intro hm c as d e start
    have less := Nat.le_of_succ_le hm
    rcases run_star_eq_ok e with ⟨rfl, -⟩ | ⟨a, c', rest, rfl, -, first, others⟩
    · exact List.forall_mem_nil _
    · exact List.forall_mem_cons.2 ⟨h m less c a c' first start,
        ih less c' rest d others (Lasting.last first start)⟩

/-- As `star`, for a repetition that reads something. -/
theorem plus (h : ReadsFrom good rules n p fits) :
    ReadsFrom good rules n (.plus p) fun as => ∀ a ∈ as, fits a :=
  map ((any.seq (h.seq h.star)).mono fun _ hs => List.forall_mem_cons.2 hs.2)

end ReadsFrom
end Peg
end Stylesheet
