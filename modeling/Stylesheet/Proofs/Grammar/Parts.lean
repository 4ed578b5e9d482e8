/-
# The parts of a statement

How the parts of a statement are read that are written without holes: selectors, queries and
names, what ends a statement, and the alternatives of a choice, the first of which are often
ruled out by the first characters of the text (`Grammar.takes_choice`).  A rule is not taken
for a declaration, because no colon follows its first word (`Grammar.fails_declaration`).
-/

import Stylesheet.Proofs.Grammar.Words

namespace Stylesheet

namespace Grammar

variable {α β : Type} {file : String} {s w ts us rest : List Char} {x : Char}

/-- A choice without its first `n` alternatives. -/
def others : (n : Nat) → {α : Type} → Peg Rule α → Peg Rule α
  | n + 1, _, .alt _ q => others n q
  | _, _, p => p

/-- Whether the first characters of a text rule out the first `n` alternatives of a choice. -/
def rulesOut (start : List Char) : (n : Nat) → {α : Type} → Peg Rule α → Bool
  | 0, _, _ => true
  | n + 1, _, .alt p q => forecast start 200 p = .fails && rulesOut start n q
  | _, _, _ => false

/-- **What is taken is what the alternatives take that are not ruled out** by the start of the
text. -/
theorem takes_choice {p : Peg Rule α} {fits : α → Prop} (n : Nat) (start : List Char)
    (out : rulesOut start n p) (starts : start <+: ts ++ rest)
    (h : Takes file (others n p) ts rest fits) : Takes file p ts rest fits := by
  induction n generalizing p with
  | zero => simpa only [others] using h
  | succ n ih =>
    cases p with
    | alt p q =>
      simp only [rulesOut, Bool.and_eq_true, decide_eq_true_eq] at out
      obtain ⟨tail, e⟩ := starts
      have fails : Fails p (ts ++ rest) := e ▸ .of_forecast start 200 out.1 tail
      exact .alt_else fails (ih out.2 h)
    | eof | lit | char | span | call | seq | star | opt | no | map | located =>
      simp [rulesOut] at out

/-- So it is if whatever the text starts with rules them out. -/
theorem takes_choice_of_mem {p : Peg Rule α} {fits : α → Prop} (n : Nat) {first : List Char}
    (hx : x ∈ first) (out : ∀ x ∈ first, rulesOut [x] n p) (starts : (ts ++ rest).head? = some x)
    (h : Takes file (others n p) ts rest fits) : Takes file p ts rest fits := by
  refine takes_choice n [x] (out x hx) ?_ h
  cases e : ts ++ rest with
  | nil => simp [e] at starts
  | cons y tail =>
    rw [e, List.head?_cons, Option.some.injEq] at starts
    exact starts ▸ List.cons_prefix_cons.2 ⟨rfl, List.nil_prefix⟩

/-- Whether a text has a first character of some, and only others of some. -/
def MadeOf (first others : List Char) : List Char → Prop
  | [] => False
  | x :: cs => x ∈ first ∧ ∀ y ∈ cs, y ∈ others

/-- A list of selectors without `#` or brackets. -/
abbrev IsSelectorText : List Char → Prop :=
  MadeOf ('.' :: letters) ('.' :: ',' :: ' ' :: letters)

/-- A query of words. -/
abbrev IsQueryText : List Char → Prop :=
  MadeOf letters (' ' :: letters)

/-- A name with hyphens. -/
abbrev IsPropertyText : List Char → Prop :=
  MadeOf letters ('-' :: letters)

/-- A text of some characters has a first one. -/
theorem MadeOf.exists_cons {first others : List Char} (h : MadeOf first others s) :
    ∃ x cs, s = x :: cs ∧ x ∈ first ∧ ∀ y ∈ cs, y ∈ others := by
  cases s with
  | nil => exact h.elim
  | cons x cs => exact ⟨x, cs, rfl, h.1, h.2⟩

/-- A text of some characters is not empty. -/
theorem MadeOf.ne_nil {first others : List Char} (h : MadeOf first others s) : s ≠ [] := by
  obtain ⟨x, cs, rfl, -⟩ := h.exists_cons
  simp

/-- A text has only characters that may come later, if those that it starts with may. -/
theorem MadeOf.mem {first others : List Char} (h : MadeOf first others s) (sub : first ⊆ others)
    (hx : x ∈ s) : x ∈ others := by
  obtain ⟨y, cs, rfl, hy, hcs⟩ := h.exists_cons
  rcases List.mem_cons.1 hx with rfl | hx
  · exact sub hy
  · exact hcs x hx

/-- A text may go on with characters that may come later. -/
theorem MadeOf.append {first others : List Char} (h : MadeOf first others s)
    (more : ∀ x ∈ ts, x ∈ others) : MadeOf first others (s ++ ts) := by
  obtain ⟨y, cs, rfl, hy, hcs⟩ := h.exists_cons
  exact ⟨hy, fun x hx => (List.mem_append.1 hx).elim (hcs x) (more x)⟩

/-- More characters may be allowed. -/
theorem MadeOf.mono {first first' others others' : List Char} (h : MadeOf first others s)
    (sub : first ⊆ first') (sub' : others ⊆ others') : MadeOf first' others' s := by
  obtain ⟨y, cs, rfl, hy, hcs⟩ := h.exists_cons
  exact ⟨sub hy, fun x hx => sub' (hcs x hx)⟩

/-- Some texts with a separator between them. -/
theorem MadeOf.intercalate {first others sep : List Char} {parts : List (List Char)}
    (some : parts ≠ []) (h : ∀ p ∈ parts, MadeOf first others p) (sub : first ⊆ others)
    (hsep : ∀ x ∈ sep, x ∈ others) : MadeOf first others (sep.intercalate parts) := by
  induction parts with
  | nil => exact absurd rfl some
  | cons p parts ih =>
    obtain ⟨hp, hparts⟩ := List.forall_mem_cons.1 h
    cases parts with
    | nil => rwa [List.intercalate_singleton]
    | cons q parts =>
      rw [List.intercalate_cons_cons]
      exact (hp.append hsep).append fun x hx => (ih (by simp) hparts).mem sub hx

/-- An expression does not match a text that starts with one of some characters. -/
theorem Fails.of_madeOf {p : Peg Rule α} {first others : List Char} (hs : MadeOf first others s)
    (h : ∀ x ∈ first, forecast [x] 200 p = .fails) : Fails p (s ++ rest) := by
  obtain ⟨x, cs, rfl, hx, -⟩ := hs.exists_cons
  exact .of_mem hx h

/-- A run of characters of a class ends before a text that starts otherwise. -/
theorem MadeOf.stops {f : Char → Bool} {first others : List Char} (hs : MadeOf first others s)
    (h : ∀ x ∈ first, f x = false) : Stops f (s ++ rest) := by
  obtain ⟨x, cs, rfl, hx, -⟩ := hs.exists_cons
  exact stops_cons.2 (h x hx)

/-- A run of characters of a class that ends where others follow. -/
theorem takes_spanOne {f : Char → Bool} {first others : List Char} (h : MadeOf first others s)
    (hfirst : ∀ x ∈ first, f x = true) (hothers : ∀ x ∈ others, f x = true)
    (stops : Stops f rest) : Takes file (.spanOne f) s rest (· = s) := by
  refine .spanOne h.ne_nil ?_ stops
  obtain ⟨x, cs, rfl, hx, hcs⟩ := h.exists_cons
  exact List.forall_mem_cons.2 ⟨hfirst x hx, fun y hy => hothers y (hcs y hy)⟩

/-- A keyword and what it is about. -/
theorem takes_at {p : Peg Rule α} {a : α} {first others : List Char} (k : String)
    (made : MadeOf first others ts) (noSpace : ∀ x ∈ first, Text.isSpace x = false)
    (h : Takes file p ts rest (· = a)) :
    Takes file (keyword k *> on .gap *> p) (k.toList ++ [' '] ++ ts) rest (· = a) := by
  obtain ⟨x, cs, rfl, hx, -⟩ := made.exists_cons
  have blank : Takes file (on .gap) [' '] (x :: cs ++ rest) (· = ()) :=
    takes_gap (by decide) (stops_cons.2 (noSpace x hx))
  exact ((takes_keyword k (stops_cons.2 (by decide))).right blank).right h

/-- A run of characters of a class is one piece of a template. -/
theorem takes_textPiece {f : Char → Bool} {first others : List Char} (h : MadeOf first others s)
    (hfirst : ∀ x ∈ first, f x = true) (hothers : ∀ x ∈ others, f x = true)
    (stops : Stops f rest) :
    Takes file (textPiece <$> .spanOne f : Peg Rule _) s rest (· = .text (String.ofList s)) :=
  (takes_spanOne h hfirst hothers stops).map_eq

/-- A list of selectors is read up to the brace of its block. -/
theorem takes_selector (h : IsSelectorText s) :
    Takes file (on .selector) s ('\x7b' :: rest) (· = [.text (String.ofList s)]) :=
  .call ((Takes.alt_else (.of_madeOf h (by decide))
    (.alt (takes_textPiece h (by decide) (by decide) (by simp)))).plus_one h.ne_nil
      (.of_forecast ['\x7b'] 200 (by decide) rest)).map_eq

/-- A query is read up to the brace of its block. -/
theorem takes_atValue (h : IsQueryText s) :
    Takes file (on .atValue) s ('\x7b' :: rest) (· = [.text (String.ofList s)]) :=
  .call ((Takes.alt_else (.of_madeOf h (by decide))
    (.alt (takes_textPiece h (by decide) (by decide) (by simp)))).plus_one h.ne_nil
      (.of_forecast ['\x7b'] 200 (by decide) rest)).map_eq

/-- What follows the name of a property, or a word that is none. -/
def nameEnds : List Char :=
  [':', ' ', ',', '.', '\x7b']

/-- The name of a property is read up to what ends it. -/
theorem takes_propertyName (h : IsPropertyText s) (hx : x ∈ nameEnds) :
    Takes file (on .propertyName) s (x :: rest) (· = [.text (String.ofList s)]) := by
  have noPart : ∀ x ∈ nameEnds, Name.isPart x = false := by decide
  have piece : Takes file ((fun c cs => textPiece (c :: cs)) <$>
      .char (fun c => Name.isStart c || c == '*' || c == '-') <*> .span Name.isPart : Peg Rule _) s
      (x :: rest) (· = .text (String.ofList s)) := by
    obtain ⟨y, cs, rfl, hy, hcs⟩ := h.exists_cons
    have starts : ∀ y ∈ letters, (Name.isStart y || y == '*' || y == '-') = true := by decide
    have goes : ∀ y ∈ '-' :: letters, Name.isPart y = true := by decide
    have head : Takes file (.char fun c => Name.isStart c || c == '*' || c == '-') [y]
        (cs ++ x :: rest) (· = y) := .char (starts y hy) _
    have tail : Takes file (.span Name.isPart) cs (x :: rest) (· = cs) :=
      .span (fun z hz => goes z (hcs z hz)) (stops_cons.2 (noPart x hx))
    exact head.map_eq.app_eq tail
  exact .call ((Takes.alt_else (.of_madeOf h (by decide)) piece).plus_one h.ne_nil
    (.of_mem hx (by decide))).map_eq

/-- A word is made of small letters. -/
theorem IsWord.madeOf (h : IsWord w) : MadeOf letters letters w := by
  obtain ⟨x, cs, rfl⟩ := List.exists_cons_of_ne_nil h.nonempty
  obtain ⟨hx, hcs⟩ := List.forall_mem_cons.1 h.lower
  exact ⟨mem_letters_of_lower hx, fun y hy => mem_letters_of_lower (hcs y hy)⟩

/-- What follows the name of a buffer. -/
def EndsName (rest : List Char) : Prop :=
  (∃ tail, rest = ';' :: tail) ∨ ∃ tail, rest = ' ' :: '\x7b' :: tail

/-- No name goes on where one ends. -/
theorem EndsName.stops (h : EndsName rest) : Stops Name.isPart rest := by
  rcases h with ⟨tail, rfl⟩ | ⟨tail, rfl⟩
  · exact stops_cons.2 (by decide)
  · exact stops_cons.2 (by decide)

/-- The name of a buffer goes on after a blank only if more of the name follows. -/
theorem takes_bufferName (h : IsWord w) (ends : EndsName rest) :
    Takes file (on .bufferName) w rest (· = [.text (String.ofList w)]) := by
  have piece : Takes file (textPiece <$> .spanOne Name.isPart : Peg Rule _) w rest
      (· = .text (String.ofList w)) :=
    takes_textPiece h.madeOf (by decide) (by decide) ends.stops
  refine .call ((Takes.alt_else (.of_madeOf h.madeOf (by decide)) (.alt piece)).plus_one
    h.nonempty ?_).map_eq
  rcases ends with ⟨tail, rfl⟩ | ⟨tail, rfl⟩
  · exact .of_forecast [';'] 200 (by decide) tail
  · have made : MadeOf [' '] [] [' '] := ⟨List.mem_singleton_self _, List.forall_mem_nil _⟩
    have blank (file : String) : Takes file
        (.spanOne fun c => c == ' ' || c == '\t' : Peg Rule _) [' '] ('\x7b' :: tail)
        (· = [' ']) := takes_spanOne made (by decide) (by decide) (by simp)
    have noMore : Fails (.char fun c => Name.isPart c || c == '#' : Peg Rule _) ('\x7b' :: tail) :=
      .of_forecast ['\x7b'] 200 (by decide) tail
    exact .alt (.of_forecast [' '] 200 (by decide) _)
      (.alt (.of_forecast [' '] 200 (by decide) _)
        (.map (.map (.after _ blank noMore.ahead))))

/-- No colon follows the first word of a list of selectors. -/
theorem fails_declaration (h : IsSelectorText s) :
    Fails (on .declaration) (s ++ '\x7b' :: rest) := by
  obtain ⟨x, cs, rfl, hx, hcs⟩ := h.exists_cons
  rcases List.mem_cons.1 hx with rfl | letter
  · exact .of_forecast ['.'] 200 (by decide) _
  obtain ⟨us, vs, rfl, lower, stops⟩ := exists_run (· ∈ letters) cs
  obtain ⟨g, more, rfl, spaces, ends⟩ := exists_run Text.isSpace vs
  have name : IsPropertyText (x :: us) :=
    ⟨letter, fun y hy => List.mem_cons_of_mem _ (by simpa using lower y hy)⟩
  obtain ⟨y, tail, e, hy⟩ : ∃ y tail, more ++ '\x7b' :: rest = y :: tail ∧
      y ∈ '\x7b' :: '.' :: ',' :: ' ' :: letters := by
    cases more with
    | nil => exact ⟨'\x7b', rest, rfl, by simp⟩
    | cons y more => exact ⟨y, _, rfl, List.mem_cons_of_mem _ (hcs y (by simp))⟩
  have wordStops : Stops (· ∈ letters) (g ++ y :: tail) := by
    rw [← e, ← List.append_assoc]
    exact stops.append (by decide)
  have gapStops : Text.isSpace y = false := stops_cons.1 (e ▸ ends.append (by decide))
  -- after the word comes a blank, a full stop, a comma or the brace; after the gap no colon
  obtain ⟨z, others, e', hz⟩ : ∃ z others, g ++ y :: tail = z :: others ∧ z ∈ nameEnds := by
    have blank : ∀ z ∈ '.' :: ',' :: ' ' :: letters, Text.isSpace z = true → z ∈ nameEnds := by
      decide
    have other : ∀ z ∈ '\x7b' :: '.' :: ',' :: ' ' :: letters, z ∉ letters → z ∈ nameEnds := by
      decide
    cases g with
    | nil => exact ⟨y, tail, rfl, other y hy (by simpa using wordStops)⟩
    | cons z g => exact ⟨z, _, rfl, blank z (hcs z (by simp)) (spaces z (by simp))⟩
  have noColon : Fails (.lit ":") (y :: tail) := .of_mem hy (by decide)
  have word (file : String) : Takes file (on .propertyName <* on .gap) ((x :: us) ++ g) (y :: tail)
      (· = [.text (String.ofList (x :: us))]) :=
    .left (e' ▸ takes_propertyName name hz) (takes_gap spaces (stops_cons.2 gapStops))
  have noName : Fails (on .propertyName <* on .gap <* .lit ":") (((x :: us) ++ g) ++ y :: tail) :=
    .map (.after _ word noColon)
  have failed : Fails (on .declaration) (((x :: us) ++ g) ++ y :: tail) :=
    .call (.map (.located (.map (.seq (.map (.map (.seq (.map (.seq noName)))))))))
  simpa [e] using failed

/-- A statement that ends with a semicolon. -/
theorem takes_stop (rest : List Char) : Takes file (on .stop) [';'] rest (· = ()) :=
  .call (.alt (.lit ";" rest))

/-- The last statement of a block may go without. -/
theorem takes_stop_of_brace (rest : List Char) :
    Takes file (on .stop) [] ('\x7d' :: rest) (· = ()) := by
  have noSemicolon : Fails (.lit ";") ('\x7d' :: rest) :=
    .of_forecast ['\x7d'] 200 (by decide) rest
  exact .call (.alt_else noSemicolon (.alt (.ahead fun _ => .lit "\x7d" rest)))

end Grammar
end Stylesheet
