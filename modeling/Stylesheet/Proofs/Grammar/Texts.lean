/-
# What an expression reads of a text

`Grammar.Takes file p ts rest fits` says that `p`, wherever it is matched in the file before
the text `ts ++ rest`, reads `ts` and a value that fits; `Grammar.Fails p ts` says that it does
not match before `ts`.  The rules here put what an expression takes together from what its
parts take.

Much about a match can be told from how the text starts.  `Grammar.forecast` tells it, by going
through the rules with the first characters of the text at hand, and `Grammar.forecast_sound`
says that it is right.
-/

import Stylesheet.Proofs.Grammar.Gives

namespace Stylesheet
namespace Grammar

variable {α β γ : Type} {file : String} {ts us rest : List Char}

/-- The run of characters of a class ends before a text. -/
def Stops (f : Char → Bool) (rest : List Char) : Prop :=
  rest.head?.any f = false

@[simp] theorem stops_nil (f : Char → Bool) : Stops f [] :=
  rfl

@[simp] theorem stops_cons {f : Char → Bool} {x : Char} : Stops f (x :: rest) ↔ f x = false := by
  simp [Stops]

/-- A run ends before a text with more after it, if what follows cannot continue the run. -/
theorem Stops.append {f : Char → Bool} {x : Char} (h : Stops f ts) (hx : f x = false) :
    Stops f (ts ++ x :: rest) := by
  cases ts with
  | nil => exact stops_cons.2 hx
  | cons y ts => exact stops_cons.2 (stops_cons.1 h)

/-- What is of a class and starts a text is part of the run of the class. -/
theorem prefix_of_stops {f : Char → Bool} (all : ∀ x ∈ ts, f x = true) (stops : Stops f rest)
    (starts : ts <+: us ++ rest) : ts <+: us := by
  induction ts generalizing us with
  | nil => exact List.nil_prefix
  | cons x ts ih =>
    obtain ⟨hx, hts⟩ := List.forall_mem_cons.1 all
    cases us with
    | nil =>
      obtain ⟨tail, rfl⟩ := starts
      simp [hx] at stops
    | cons y us =>
      rw [List.cons_append, List.cons_prefix_cons] at starts
      exact List.cons_prefix_cons.2 ⟨starts.1, ih hts starts.2⟩

/-- A run of characters of a class and the text after it. -/
theorem exists_run (f : Char → Bool) (ts : List Char) :
    ∃ us vs, ts = us ++ vs ∧ (∀ x ∈ us, f x = true) ∧ Stops f vs := by
  refine ⟨ts.takeWhile f, ts.dropWhile f, List.takeWhile_append_dropWhile.symm,
    List.all_eq_true.1 List.all_takeWhile, ?_⟩
  have first := List.head?_dropWhile_not f ts
  cases e : (ts.dropWhile f).head? with
  | none => simp [Stops, e]
  | some x => simpa [Stops, e] using first

/-- The run of a class is what is of the class up to the first character that is not. -/
theorem takeWhile_of_stops {f : Char → Bool} (all : ∀ x ∈ ts, f x = true) (stops : Stops f rest) :
    (ts ++ rest).takeWhile f = ts := by
  rw [List.takeWhile_append_of_pos all]
  cases rest with
  | nil => simp
  | cons x rest => simp [stops_cons.1 stops]

/-- What `p` reads before `ts ++ rest` in a file is `ts`, with a value that fits. -/
def Takes (file : String) (p : Peg Rule α) (ts rest : List Char) (fits : α → Prop) : Prop :=
  ∀ c : Cursor, c.file = file → c.rest = ts ++ rest →
    ∃ a, fits a ∧ Gives p c (.ok a (c.skip ts.length))

/-- `p` does not match before `ts`. -/
def Fails (p : Peg Rule α) (ts : List Char) : Prop :=
  ∀ c : Cursor, c.rest = ts → Gives p c .fail

/-- The text after what is taken is what is left. -/
theorem rest_skip_of_eq {c : Cursor} (h : c.rest = ts ++ rest) :
    (c.skip ts.length).rest = rest := by
  simp [h]

namespace Takes

variable {p : Peg Rule α} {fits fits' : α → Prop}

/-- A weaker fact holds of what is read. -/
theorem mono (h : Takes file p ts rest fits) (imp : ∀ a, fits a → fits' a) :
    Takes file p ts rest fits' := by
  intro c hf hc
  obtain ⟨a, ha, e⟩ := h c hf hc
  exact ⟨a, imp a ha, e⟩

/-- A literal reads its own text. -/
theorem lit (text : String) (rest : List Char) :
    Takes file (.lit text) text.toList rest (· = ()) :=
  fun _ _ hc => ⟨(), rfl, .lit (hc ▸ List.prefix_append _ _)⟩

/-- A character of a class is read, whatever follows. -/
theorem char {f : Char → Bool} {x : Char} (h : f x = true) (rest : List Char) :
    Takes file (.char f) [x] rest (· = x) :=
  fun _ _ hc => ⟨x, rfl, .char hc h⟩

/-- A span reads a whole run. -/
theorem span {f : Char → Bool} (all : ∀ x ∈ ts, f x = true) (stops : Stops f rest) :
    Takes file (.span f) ts rest (· = ts) := by
  intro c _ hc
  have taken : c.rest.takeWhile f = ts := hc ▸ takeWhile_of_stops all stops
  exact ⟨ts, rfl, by simpa only [taken] using Gives.span (c := c) f⟩

/-- A rule reads what its body reads. -/
theorem call {r : Rule α} (h : Takes file (body r) ts rest fits) :
    Takes file (on r) ts rest fits := by
  intro c hf hc
  obtain ⟨a, ha, e⟩ := h c hf hc
  exact ⟨a, ha, .call e⟩

/-- A sequence reads one text after the other. -/
theorem seq {q : Peg Rule β} {fits' : β → Prop} (hp : Takes file p ts (us ++ rest) fits)
    (hq : Takes file q us rest fits') :
    Takes file (.seq p q) (ts ++ us) rest fun ab => fits ab.1 ∧ fits' ab.2 := by
  intro c hf hc
  rw [List.append_assoc] at hc
  obtain ⟨a, ha, first⟩ := hp c hf hc
  obtain ⟨b, hb, second⟩ := hq (c.skip ts.length) hf (rest_skip_of_eq hc)
  refine ⟨(a, b), ⟨ha, hb⟩, ?_⟩
  rw [List.length_append, ← c.skip_skip]
  exact .seq first second

/-- As `seq`, for known values. -/
theorem seq_eq {q : Peg Rule β} {a : α} {b : β} (hp : Takes file p ts (us ++ rest) (· = a))
    (hq : Takes file q us rest (· = b)) : Takes file (.seq p q) (ts ++ us) rest (· = (a, b)) :=
  (hp.seq hq).mono fun _ e => Prod.ext e.1 e.2

/-- What is read is passed through a function. -/
theorem map {f : α → β} {fits : β → Prop} (h : Takes file p ts rest fun a => fits (f a)) :
    Takes file (f <$> p) ts rest fits := by
  intro c hf hc
  obtain ⟨a, ha, e⟩ := h c hf hc
  exact ⟨f a, ha, .map e⟩

/-- A function and its argument are read one after the other. -/
theorem app {g : Peg Rule (α → β)} {fits' : β → Prop}
    (hg : Takes file g ts (us ++ rest) fun f => ∀ a, fits a → fits' (f a))
    (hp : Takes file p us rest fits) : Takes file (g <*> p) (ts ++ us) rest fits' :=
  map ((hg.seq hp).mono fun fa h => h.1 fa.2 h.2)

/-- As `map`, for a known value. -/
theorem map_eq {f : α → β} {a : α} (h : Takes file p ts rest (· = a)) :
    Takes file (f <$> p) ts rest (· = f a) :=
  map (h.mono fun _ e => congrArg f e)

/-- As `app`, for known values. -/
theorem app_eq {g : Peg Rule (α → β)} {f : α → β} {a : α}
    (hg : Takes file g ts (us ++ rest) (· = f)) (hp : Takes file p us rest (· = a)) :
    Takes file (g <*> p) (ts ++ us) rest (· = f a) :=
  app (hg.mono fun g hg b hb => by rw [hg, hb]) hp

/-- A span that may not be empty reads a whole run. -/
theorem spanOne {f : Char → Bool} (some : ts ≠ []) (all : ∀ x ∈ ts, f x = true)
    (stops : Stops f rest) : Takes file (.spanOne f) ts rest (· = ts) := by
  obtain ⟨x, cs, rfl⟩ := List.exists_cons_of_ne_nil some
  obtain ⟨hx, hcs⟩ := List.forall_mem_cons.1 all
  have first : Takes file (.char f) [x] (cs ++ rest) (· = x) := char hx _
  exact (first.seq_eq (span hcs stops)).map_eq

/-- As `seq`, with the value of the first part. -/
theorem left {q : Peg Rule β} {fits' : β → Prop} (hp : Takes file p ts (us ++ rest) fits)
    (hq : Takes file q us rest fits') : Takes file (p <* q) (ts ++ us) rest fits :=
  map ((hp.seq hq).mono fun _ h => h.1)

/-- As `seq`, with the value of the second part. -/
theorem right {q : Peg Rule β} {fits' : β → Prop} (hp : Takes file p ts (us ++ rest) fits)
    (hq : Takes file q us rest fits') : Takes file (p *> q) (ts ++ us) rest fits' :=
  map ((hp.seq hq).mono fun _ h => h.2)

/-- Nothing is read for the last argument. -/
theorem app_nil {g : Peg Rule (α → β)} {f : α → β} {a : α} (hg : Takes file g ts rest (· = f))
    (hp : Takes file p [] rest (· = a)) : Takes file (g <*> p) ts rest (· = f a) := by
  have whole : Takes file (g <*> p) (ts ++ []) rest (· = f a) := hg.app_eq hp
  simpa only [List.append_nil] using whole

/-- Nothing is read at the end. -/
theorem left_nil {q : Peg Rule β} {fits' : β → Prop} (hp : Takes file p ts rest fits)
    (hq : Takes file q [] rest fits') : Takes file (p <* q) ts rest fits := by
  have whole : Takes file (p <* q) (ts ++ []) rest fits := hp.left hq
  simpa only [List.append_nil] using whole

/-- The first part of a choice reads what the choice does. -/
theorem alt {q : Peg Rule α} (h : Takes file p ts rest fits) :
    Takes file (p <|> q) ts rest fits := by
  intro c hf hc
  obtain ⟨a, ha, e⟩ := h c hf hc
  exact ⟨a, ha, .alt e⟩

/-- The second part of a choice reads where the first fails. -/
theorem alt_else {q : Peg Rule α} (hp : Fails p (ts ++ rest)) (hq : Takes file q ts rest fits) :
    Takes file (p <|> q) ts rest fits := by
  intro c hf hc
  obtain ⟨a, ha, e⟩ := hq c hf hc
  exact ⟨a, ha, .alt_else (hp c hc) e⟩

/-- A repetition ends where its body fails. -/
theorem star_end (h : Fails p rest) : Takes file (.star p) [] rest (· = []) :=
  fun c _ hc => ⟨[], rfl, by simpa [c.skip_zero] using Gives.star_end (h c hc)⟩

/-- At the end of the text nothing is tried. -/
theorem star_eof : Takes file (.star p) [] [] (· = []) :=
  fun c _ hc => ⟨[], rfl, by
    rw [List.length_nil, c.skip_zero]
    exact ⟨by simp, 1, by rw [Peg.run]; simp [show c.rest = [] from hc]⟩⟩

/-- A repetition reads one text more. -/
theorem star_more {fits' : List α → Prop} (some : ts ≠ []) (hp : Takes file p ts (us ++ rest) fits)
    (more : Takes file (.star p) us rest fits') :
    Takes file (.star p) (ts ++ us) rest fun as =>
      ∃ a as', as = a :: as' ∧ fits a ∧ fits' as' := by
  intro c hf hc
  rw [List.append_assoc] at hc
  obtain ⟨a, ha, first⟩ := hp c hf hc
  obtain ⟨as, has, others⟩ := more (c.skip ts.length) hf (rest_skip_of_eq hc)
  refine ⟨a :: as, ⟨a, as, rfl, ha, has⟩, ?_⟩
  rw [List.length_append, ← c.skip_skip]
  exact .star_more (by simp [hc, some]) first others

/-- An optional part is left out where it fails. -/
theorem opt_none (h : Fails p rest) : Takes file (.opt p) [] rest (· = none) :=
  fun c _ hc => ⟨none, rfl, by simpa [c.skip_zero] using Gives.opt_none (h c hc)⟩

/-- An optional part is read where it can be. -/
theorem opt_some (some : ts ++ rest ≠ []) (h : Takes file p ts rest fits) :
    Takes file (.opt p) ts rest fun o => ∃ a, o = Option.some a ∧ fits a := by
  intro c hf hc
  obtain ⟨a, ha, e⟩ := h c hf hc
  exact ⟨Option.some a, ⟨a, rfl, ha⟩, .opt_some (hc ▸ some) e⟩

/-- A prohibition reads nothing where its body fails. -/
theorem no (h : Fails p rest) : Takes file (.no p) [] rest (· = ()) :=
  fun c _ hc => ⟨(), rfl, by simpa [c.skip_zero] using Gives.no (h c hc)⟩

/-- Once, and as often as it matches from there on. -/
theorem plus {fits' : List α → Prop} (some : ts ≠ []) (hp : Takes file p ts (us ++ rest) fits)
    (more : Takes file (.star p) us rest fits') :
    Takes file (.plus p) (ts ++ us) rest fun as =>
      ∃ a as', as = a :: as' ∧ fits a ∧ fits' as' := by
  have here : Takes file (.no .eof : Peg Rule Unit) [] (ts ++ us ++ rest) (· = ()) :=
    no fun c hc => .eof_fail (by simp [hc, some])
  refine map ((here.seq (hp.seq more)).mono ?_)
  rintro ⟨_, a, as⟩ ⟨_, ha, has⟩
  exact ⟨a, as, rfl, ha, has⟩

/-- Once, and not again. -/
theorem plus_one {a : α} (some : ts ≠ []) (h : Takes file p ts rest (· = a))
    (no_more : Fails p rest) : Takes file (.plus p) ts rest (· = [a]) := by
  have once : Takes file (.plus p) (ts ++ []) rest _ := plus some h (star_end no_more)
  rw [List.append_nil] at once
  refine once.mono ?_
  rintro _ ⟨_, _, rfl, rfl, rfl⟩
  rfl

/-- A value comes with a line of the file. -/
theorem located {fits : Span × α → Prop}
    (h : Takes file p ts rest fun a => ∀ line : Nat, fits ({ file, line }, a)) :
    Takes file (.located p) ts rest fits := by
  intro c hf hc
  obtain ⟨a, ha, e⟩ := h c hf hc
  refine ⟨_, ?_, .located e⟩
  rw [hf]
  exact ha c.line

end Takes

namespace Fails

variable {p : Peg Rule α}

/-- A literal fails before a text that it does not start. -/
theorem lit {text : String} (h : ¬text.toList <+: ts) : Fails (.lit text) ts :=
  fun _ hc => .lit_fail (hc ▸ h)

/-- A character fails where the run of its class ends. -/
theorem char {f : Char → Bool} (stops : Stops f ts) : Fails (.char f) ts := by
  refine fun c hc => .char_fail fun x tail e => ?_
  rw [hc] at e
  exact stops_cons.1 (e ▸ stops)

/-- A rule fails where its body fails. -/
theorem call {r : Rule α} (h : Fails (body r) ts) : Fails (on r) ts :=
  fun c hc => .call (h c hc)

/-- Passing a value through a function does not help. -/
theorem map {f : α → β} (h : Fails p ts) : Fails (f <$> p) ts :=
  fun c hc => .map_fail (h c hc)

/-- Noting a place does not help. -/
theorem located (h : Fails p ts) : Fails (.located p) ts :=
  fun c hc => .located_fail (h c hc)

/-- A sequence fails with its first part. -/
theorem seq {q : Peg Rule β} (h : Fails p ts) : Fails (.seq p q) ts :=
  fun c hc => .seq_fail (h c hc)

/-- A choice fails with both of its parts. -/
theorem alt {q : Peg Rule α} (hp : Fails p ts) (hq : Fails q ts) : Fails (p <|> q) ts :=
  fun c hc => .alt_else (hp c hc) (hq c hc)

/-- What comes second does not match. -/
theorem after {q : Peg Rule β} (fits : α → Prop) (hp : ∀ file, Takes file p ts rest fits)
    (hq : Fails q rest) : Fails (.seq p q) (ts ++ rest) := by
  intro c hc
  obtain ⟨a, -, first⟩ := hp c.file c rfl hc
  exact .seq_fail_after first (hq _ (rest_skip_of_eq hc))

/-- Not even once. -/
theorem plus (some : ts ≠ []) (h : Fails p ts) : Fails (.plus p) ts := by
  have here (file : String) : Takes file (.no .eof : Peg Rule Unit) [] ts (· = ()) :=
    .no fun _ hc => .eof_fail (hc ▸ some)
  exact .map (.after _ here (.seq h))

/-- Nothing that does not match is ahead. -/
theorem ahead (h : Fails p ts) : Fails (.ahead p) ts :=
  fun c hc => .no_fail (.no (h c hc))

/-- A prohibition fails where its body reads something. -/
theorem no {fits : α → Prop} (h : ∀ file, Takes file p ts rest fits) :
    Fails (.no p) (ts ++ rest) := by
  intro c hc
  obtain ⟨a, -, e⟩ := h c.file c rfl hc
  exact .no_fail e

end Fails

/-- What is ahead is not read. -/
theorem Takes.ahead {p : Peg Rule α} {fits : α → Prop} (h : ∀ file, Takes file p ts rest fits) :
    Takes file (.ahead p) [] (ts ++ rest) (· = ()) :=
  .no (.no h)

/-- What the first characters of a text tell about a match. -/
inductive Forecast where
  /-- It does not match. -/
  | fails
  /-- It matches, but reads nothing. -/
  | idles
  /-- Nothing is known. -/
  | unknown
  deriving DecidableEq

/-- What the first characters of a text tell about a match, going down `depth` parts. -/
def forecast (start : List Char) : (depth : Nat) → {α : Type} → Peg Rule α → Forecast
  | 0, _, _ => .unknown
  | depth + 1, _, p =>
    match p with
    | .eof => if start.isEmpty then .unknown else .fails
    | .lit text =>
      if text.toList.isPrefixOf start || start.isPrefixOf text.toList then .unknown else .fails
    | .char f => if start.head?.any (!f ·) then .fails else .unknown
    | .span f => if start.head?.any (!f ·) then .idles else .unknown
    | .call r => forecast start depth (body r)
    | .seq p q =>
      match forecast start depth p with
      | .fails => .fails
      | .idles => forecast start depth q
      | .unknown => .unknown
    | .alt p q =>
      match forecast start depth p with
      | .fails => forecast start depth q
      | found => found
    | .star p | .opt p =>
      match forecast start depth p with
      | .fails => .idles
      | _ => .unknown
    | .no p =>
      match forecast start depth p with
      | .fails => .idles
      | .idles => .fails
      | .unknown => .unknown
    | .map _ p | .located p => forecast start depth p

-- what is foretold is gone through by its equations
attribute [local simp] forecast

/-- Whether a match comes to what is foretold. -/
def Forecast.holds (p : Peg Rule α) (c : Cursor) : Forecast → Prop
  | fails => Gives p c .fail
  | idles => ∃ a, Gives p c (.ok a c)
  | unknown => True

/-- A text that starts otherwise. -/
theorem not_prefix_of_start {start ts : List Char} (starts : start <+: rest)
    (other : ¬ (ts.isPrefixOf start || start.isPrefixOf ts) = true) : ¬ ts <+: rest := by
  intro h
  rw [Bool.or_eq_true, List.isPrefixOf_iff_prefix, List.isPrefixOf_iff_prefix] at other
  exact other (List.prefix_or_prefix_of_prefix h starts)

/-- The first character of a text that starts with one. -/
theorem head_of_start {start : List Char} {f : Char → Bool} (starts : start <+: rest)
    (h : start.head?.any f = true) : ∃ x tail, rest = x :: tail ∧ f x = true := by
  obtain ⟨tail, rfl⟩ := starts
  cases start with
  | nil => simp at h
  | cons x start => exact ⟨x, start ++ tail, rfl, by simpa using h⟩

section

variable {start : List Char} {depth : Nat} {p : Peg Rule α} {c : Cursor}

/-- The first character of a text is not of a class that the start of the text leaves out. -/
theorem stops_of_start {f : Char → Bool} (starts : start <+: c.rest)
    (h : start.head?.any (!f ·) = true) : Stops f c.rest := by
  obtain ⟨x, tail, e, hx⟩ := head_of_start starts h
  rw [e, stops_cons]
  simpa using hx

/-- At a text that starts with something, the end is not matched. -/
theorem holds_eof (starts : start <+: c.rest) :
    (forecast start (depth + 1) .eof).holds .eof c := by
  rw [forecast]
  split
  · exact trivial
  · rename_i some
    refine .eof_fail fun empty => some ?_
    rw [empty, List.prefix_nil] at starts
    simp [starts]

/-- A literal is not matched where the text starts otherwise. -/
theorem holds_lit (text : String) (starts : start <+: c.rest) :
    (forecast start (depth + 1) (.lit text)).holds (.lit text) c := by
  rw [forecast]
  split
  · exact trivial
  · rename_i other
    exact .lit_fail (not_prefix_of_start starts other)

/-- A character is not matched where the first one is not of the class. -/
theorem holds_char (f : Char → Bool) (starts : start <+: c.rest) :
    (forecast start (depth + 1) (.char f)).holds (.char f) c := by
  rw [forecast]
  split
  · rename_i h
    exact Fails.char (stops_of_start starts h) c rfl
  · exact trivial

/-- A run of characters is empty where the first one is not of the class. -/
theorem holds_span (f : Char → Bool) (starts : start <+: c.rest) :
    (forecast start (depth + 1) (.span f)).holds (.span f) c := by
  rw [forecast]
  split
  · rename_i h
    have none : c.rest.takeWhile f = [] :=
      takeWhile_of_stops (List.forall_mem_nil _) (stops_of_start starts h)
    exact ⟨[], by simpa [none, c.skip_zero] using Gives.span (c := c) f⟩
  · exact trivial

/-- What fails and idles where its only part does comes to what is foretold of the part. -/
theorem Forecast.holds.of_part {whole : Peg Rule β} {told : Forecast} (h : told.holds p c)
    (fails : Gives p c .fail → Gives whole c .fail)
    (idles : ∀ a, Gives p c (.ok a c) → ∃ b, Gives whole c (.ok b c)) : told.holds whole c := by
  cases told with
  | fails => exact fails h
  | idles =>
    obtain ⟨a, h⟩ := h
    exact idles a h
  | unknown => exact trivial

/-- The second part of a sequence is tried where the first has read nothing. -/
theorem holds_seq {q : Peg Rule β} (first : (forecast start depth p).holds p c)
    (second : (forecast start depth q).holds q c) :
    (forecast start (depth + 1) (.seq p q)).holds (.seq p q) c := by
  rw [forecast]
  cases e : forecast start depth p with
  | fails => exact .seq_fail (by rwa [e] at first)
  | idles =>
    rw [e] at first
    obtain ⟨a, h⟩ := first
    exact second.of_part (fun h' => .seq_fail_after h h') fun b h' => ⟨(a, b), .seq h h'⟩
  | unknown => exact trivial

/-- The other choice is tried where the first one fails. -/
theorem holds_alt {q : Peg Rule α} (first : (forecast start depth p).holds p c)
    (second : (forecast start depth q).holds q c) :
    (forecast start (depth + 1) (.alt p q)).holds (.alt p q) c := by
  rw [forecast]
  cases e : forecast start depth p with
  | fails =>
    rw [e] at first
    exact second.of_part (fun h => .alt_else first h) fun a h => ⟨a, .alt_else first h⟩
  | idles =>
    rw [e] at first
    obtain ⟨a, h⟩ := first
    exact ⟨a, .alt h⟩
  | unknown => exact trivial

/-- A repetition reads nothing where its part fails. -/
theorem holds_star (inner : (forecast start depth p).holds p c) :
    (forecast start (depth + 1) (.star p)).holds (.star p) c := by
  rw [forecast]
  cases e : forecast start depth p with
  | fails => exact ⟨[], .star_end (by rwa [e] at inner)⟩
  | idles | unknown => exact trivial

/-- What may be absent reads nothing where it would fail. -/
theorem holds_opt (inner : (forecast start depth p).holds p c) :
    (forecast start (depth + 1) (.opt p)).holds (.opt p) c := by
  rw [forecast]
  cases e : forecast start depth p with
  | fails => exact ⟨none, .opt_none (by rwa [e] at inner)⟩
  | idles | unknown => exact trivial

/-- What must not be there is there or not as the part matches. -/
theorem holds_no (inner : (forecast start depth p).holds p c) :
    (forecast start (depth + 1) (.no p)).holds (.no p) c := by
  rw [forecast]
  cases e : forecast start depth p with
  | fails => exact ⟨(), .no (by rwa [e] at inner)⟩
  | idles =>
    rw [e] at inner
    obtain ⟨a, h⟩ := inner
    exact .no_fail h
  | unknown => exact trivial

end

/-- **What is foretold is what a match comes to.** -/
theorem forecast_sound {start : List Char} (depth : Nat) (p : Peg Rule α) {c : Cursor}
    (starts : start <+: c.rest) : (forecast start depth p).holds p c := by
  induction depth generalizing α p c with
  | zero => exact trivial
  | succ depth ih =>
    cases p with
    | eof => exact holds_eof starts
    | lit text => exact holds_lit text starts
    | char f => exact holds_char f starts
    | span f => exact holds_span f starts
    | call r => exact (ih (body r) starts).of_part .call fun a h => ⟨a, .call h⟩
    | seq p q => exact holds_seq (ih p starts) (ih q starts)
    | alt p q => exact holds_alt (ih p starts) (ih q starts)
    | star p => exact holds_star (ih p starts)
    | opt p => exact holds_opt (ih p starts)
    | no p => exact holds_no (ih p starts)
    | map f p => exact (ih p starts).of_part .map_fail fun a h => ⟨f a, .map h⟩
    | located p => exact (ih p starts).of_part .located_fail fun _ h => ⟨_, .located h⟩

/-- An expression does not match a text with such a start. -/
theorem Fails.of_forecast {p : Peg Rule α} (start : List Char) (depth : Nat)
    (h : forecast start depth p = .fails) (rest : List Char) : Fails p (start ++ rest) := by
  intro c hc
  have sound := forecast_sound depth p (c := c) (hc ▸ List.prefix_append start rest)
  rwa [h] at sound

end Grammar
end Stylesheet
