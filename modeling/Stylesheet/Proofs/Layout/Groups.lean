/-
# Groups as the pass goes through a tree

As the pass goes through a tree it comes to the ends of groups, and from then on a group is
what it has been laid out to.  `Layout.Reaches P done x ends fits` says of a step of the pass
that it comes to the ends of the groups `ends` when the groups `done` have ended, that all of
them are as `P` says, and that whatever it comes to fits.
-/

import Stylesheet.Proofs.Layout.Finish

namespace Stylesheet
namespace Layout

open Node

variable {α β : Type} {P : GroupId → Node → Prop} {done ends ends' : List GroupId}
  {fits : α → Prop}

/-- The groups that have come to their end are as `P` says. -/
def State.Ended (P : GroupId → Node → Prop) (done : List GroupId) (s : State) : Prop :=
  ∀ g ∈ done, ∃ n, s.groups[g]? = some n ∧ P g n

/-- A step of the pass that comes to the end of some groups, and ends with an outcome as
it should be. -/
def Reaches (P : GroupId → Node → Prop) (done : List GroupId) (x : Lay α)
    (ends : List GroupId) (fits : α → Prop) : Prop :=
  ∀ s a, s.Ended P done → (∀ g ∈ ends, g < s.groups.size) → x.outcome s = .ok a →
    (x.after s).Ended P (done ++ ends) ∧ (x.after s).groups.size = s.groups.size ∧ fits a

namespace Reaches

/-- To do nothing ends no group. -/
theorem pure {a : α} (h : fits a) : Reaches P done (Pure.pure a : Lay α) [] fits := by
  intro s b ended _ e
  cases e
  exact ⟨by rwa [List.append_nil], rfl, h⟩

/-- What fails need not reach anything. -/
theorem throw (f : Failure) : Reaches P done (MonadExcept.throw f : Lay α) ends fits :=
  fun _ _ _ _ e => nomatch e

/-- A weaker fact holds of what is reached. -/
theorem mono {x : Lay α} {fits' : α → Prop} (hx : Reaches P done x ends fits)
    (h : ∀ a, fits a → fits' a) : Reaches P done x ends fits' := by
  intro s a ended bound e
  obtain ⟨ended', size, fit⟩ := hx s a ended bound e
  exact ⟨ended', size, h a fit⟩

/-- An inert step ends no group. -/
theorem of_inert {x : Lay α} {a : α} (h : Inert x a) (fit : fits a) :
    Reaches P done x [] fits := by
  intro s b ended _ e
  obtain ⟨o, groups⟩ := h s
  cases o.symm.trans e
  refine ⟨?_, by rw [groups], fit⟩
  unfold State.Ended
  rwa [List.append_nil, groups]

/-- The second step may use the groups that have ended in the first. -/
theorem bind {x : Lay α} {f : α → Lay β} {fits' : β → Prop}
    (hx : Reaches P done x ends fits)
    (hf : ∀ a, fits a → Reaches P (done ++ ends) (f a) ends' fits') :
    Reaches P done (x >>= f) (ends ++ ends') fits' := by
  intro s b ended bound e
  obtain ⟨a, ea, eb, after⟩ := Lay.bind_eq_ok e
  obtain ⟨ended', size, fit⟩ :=
    hx s a ended (fun g hg => bound g (List.mem_append_left _ hg)) ea
  obtain ⟨ended'', size', fit'⟩ := hf a fit (x.after s) b ended'
    (fun g hg => size ▸ bound g (List.mem_append_right _ hg)) eb
  rw [after]
  exact ⟨by rwa [← List.append_assoc], size'.trans size, fit'⟩

/-- A step that comes to the end of no group, and what follows. -/
theorem quiet_bind {x : Lay α} {f : α → Lay β} {fits' : β → Prop}
    (hx : Reaches P done x [] fits) (hf : ∀ a, fits a → Reaches P done (f a) ends fits') :
    Reaches P done (x >>= f) ends fits' :=
  hx.bind fun a fit => by rw [List.append_nil]; exact hf a fit

/-- A step, and what follows that comes to the end of no group. -/
theorem bind_quiet {x : Lay α} {f : α → Lay β} {fits' : β → Prop}
    (hx : Reaches P done x ends fits)
    (hf : ∀ a, fits a → Reaches P (done ++ ends) (f a) [] fits') :
    Reaches P done (x >>= f) ends fits' := by
  rw [← List.append_nil ends]
  exact hx.bind hf

/-- What follows a look at the groups may use what is known of them. -/
theorem get_bind {f : State → Lay α}
    (h : ∀ s : State, s.Ended P done → Reaches P done (f s) ends fits) :
    Reaches P done (get >>= f) ends fits :=
  fun s a ended => h s ended s a ended

end Reaches

/-- A flush, provided that the copies it finds fit wherever it is. -/
theorem reaches_layFlush (around : Around) (info : Info) (name : BufferName)
    {captured : List GroupId} {fits : List Node → Prop}
    (copies : ∀ s : State, s.Ended P done → fits (markLast around (flushed s.groups captured))) :
    Reaches P done (layFlush around info name captured) [] fits := by
  refine .get_bind fun s ended => ?_
  have recorded (step : BufferStep) : Reaches P done (record step) [] (fun _ => True) :=
    .of_inert (inert_record step) trivial
  have noted (text : String) : Reaches P done (note text) [] (fun _ => True) :=
    .of_inert (inert_note text) trivial
  refine (recorded _).quiet_bind fun _ _ => (noted _).quiet_bind fun _ _ => ?_
  cases around with
  | root =>
    dsimp only
    split
    · exact .throw _
    · exact .pure (copies s ended)
  | _ => exact .pure (copies s ended)

/-- The end of a group, which from then on is found as it is laid out. -/
theorem reaches_finishBuffer {around : Around} {info : Info} {name : BufferName} {g : GroupId}
    (group : info.group = some g) (new : g ∉ done) {laid : List Node}
    (kept : P g (.plain info (.buffer name) (risen around laid))) :
    Reaches P done
      (do
        register around info (.buffer name) laid
        settle (finish around info (.buffer name) laid)) [g]
      (·.left = []) := by
  intro s a ended bound e
  have hg := bound g List.mem_cons_self
  obtain ⟨outcome, after⟩ := @finish_group around info laid name g group s
  cases outcome.symm.trans e
  refine ⟨fun g' hg' => ?_, by rw [after, Array.size_setIfInBounds], rfl⟩
  rw [after]
  rcases List.mem_append.1 hg' with old | last
  · obtain ⟨n, found, rest⟩ := ended g' old
    refine ⟨n, ?_, rest⟩
    rw [Array.getElem?_setIfInBounds_ne (ne_of_mem_of_not_mem old new).symm]
    exact found
  · cases List.mem_singleton.1 last
    exact ⟨_, Array.getElem?_setIfInBounds_self_of_lt hg, kept⟩

end Layout
end Stylesheet
