/-
# Reading words

A word is a run of small letters.  As a value it reads as itself (`Grammar.takes_value`), if
the end of a statement follows: none of the expressions that the grammar tries before a word
matches, and no operator follows.
-/

import Stylesheet.Proofs.Grammar.Texts
import Stylesheet.Proofs.Text.Words

namespace Stylesheet
namespace Grammar

variable {α β γ : Type} {file : String} {w ts us rest : List Char} {x : Char}

/-- The small letters. -/
def letters : List Char :=
  "abcdefghijklmnopqrstuvwxyz".toList

/-- A character of a range is among the characters that have all of the range. -/
theorem mem_of_range {k n : Nat} {cs : List Char} (listed : ∀ i < n, Char.ofNat (k + i) ∈ cs)
    (within : k ≤ x.toNat ∧ x.toNat < k + n) : x ∈ cs := by
  have found := listed (x.toNat - k) (by omega)
  rwa [Nat.add_sub_cancel' within.1, Char.ofNat_toNat] at found

/-- The list of the small letters has them all. -/
theorem mem_letters_of_lower (h : x.isLower = true) : x ∈ letters := by
  have bounds : (decide ('a'.val ≤ x.val) && decide (x.val ≤ 'z'.val)) = true := h
  rw [Bool.and_eq_true, decide_eq_true_eq, decide_eq_true_eq] at bounds
  exact mem_of_range (k := 97) (n := 26) (by decide) ⟨bounds.1, Nat.lt_succ_of_le bounds.2⟩

/-- What is so of every small letter. -/
theorem forall_lower {P : Char → Prop} (h : ∀ x ∈ letters, P x) {x : Char}
    (lower : x.isLower = true) : P x :=
  h x (mem_letters_of_lower lower)

/-- A run of small letters that is not empty. -/
structure IsWord (w : List Char) : Prop where
  nonempty : w ≠ []
  lower : ∀ x ∈ w, x.isLower = true

/-- A small letter may stand in a name. -/
theorem isPart_of_lower (h : x.isLower = true) : Name.isPart x = true :=
  forall_lower (P := fun x => Name.isPart x = true) (by decide) h

/-- A small letter may start a name. -/
theorem isStart_of_lower (h : x.isLower = true) : Name.isStart x = true :=
  forall_lower (P := fun x => Name.isStart x = true) (by decide) h

/-- An expression does not match where the text starts with one of some characters. -/
theorem Fails.of_mem {p : Peg Rule α} {xs : List Char} (hx : x ∈ xs)
    (h : ∀ x ∈ xs, forecast [x] 200 p = .fails) : Fails p (x :: rest) :=
  .of_forecast [x] 200 (h x hx) rest

/-- What fails before every small letter fails before a word. -/
theorem Fails.of_word {p : Peg Rule α} (hw : IsWord w)
    (h : ∀ x ∈ letters, forecast [x] 200 p = .fails) : Fails p (w ++ rest) := by
  obtain ⟨x, cs, rfl⟩ := List.exists_cons_of_ne_nil hw.nonempty
  exact .of_mem (mem_letters_of_lower (hw.lower x (by simp))) h

/-- Space is read up to the first character that is none. -/
theorem takes_gap (all : ∀ x ∈ ts, Text.isSpace x = true) (stops : Stops Text.isSpace rest) :
    Takes file (on .gap) ts rest (· = ()) :=
  .call (Takes.span all stops).map_eq

/-- The first letter of a word starts a name, and the others go on with it. -/
theorem IsWord.exists_takes (h : IsWord w) (file : String) (stops : Stops Name.isPart rest) :
    ∃ x cs, w = x :: cs ∧ x ∈ letters ∧
      Takes file (.char Name.isStart : Peg Rule _) [x] (cs ++ rest) (· = x) ∧
      Takes file (.span Name.isPart : Peg Rule _) cs rest (· = cs) := by
  obtain ⟨x, cs, rfl⟩ := List.exists_cons_of_ne_nil h.nonempty
  obtain ⟨hx, hcs⟩ := List.forall_mem_cons.1 h.lower
  exact ⟨x, cs, rfl, mem_letters_of_lower hx, .char (isStart_of_lower hx) _,
    .span (fun y hy => isPart_of_lower (hcs y hy)) stops⟩

/-- A word is a name. -/
theorem takes_name (h : IsWord w) (stops : Stops Name.isPart rest) :
    Takes file (on .name) w rest (· = String.ofList w) := by
  obtain ⟨x, cs, rfl, -, first, others⟩ := h.exists_takes file stops
  exact .call (first.map_eq.app_eq others)

/-- A character that goes on with a name. -/
theorem takes_nameChar (h : Name.isPart x = true) (rest : List Char) :
    Takes file (on .nameChar) [x] rest (· = ()) :=
  .call (Takes.char h rest).map_eq

/-- A name ends where no part of one follows. -/
theorem fails_nameChar (stops : Stops Name.isPart rest) : Fails (on .nameChar) rest :=
  .call (.map (.char stops))

/-- A fixed text that is not part of a longer name. -/
theorem takes_keyword (text : String) (stops : Stops Name.isPart rest) :
    Takes file (keyword text) text.toList rest (· = ()) :=
  (Takes.lit text rest).left_nil (.no (fails_nameChar stops))

/-- No other word is a keyword. -/
theorem fails_keyword {text : String} (lower : ∀ x ∈ text.toList, x.isLower = true)
    (hw : ∀ x ∈ w, x.isLower = true) (stops : Stops Char.isLower rest)
    (other : w ≠ text.toList) : Fails (keyword text) (w ++ rest) := by
  by_cases starts : text.toList <+: w ++ rest
  · obtain ⟨us, rfl⟩ := prefix_of_stops lower stops starts
    cases us with
    | nil => simp at other
    | cons x us =>
      have part : Name.isPart x = true := isPart_of_lower (hw x (by simp))
      have goesOn : Fails (.no (on .nameChar)) ([x] ++ (us ++ rest)) :=
        .no fun _ => takes_nameChar part _
      rw [List.append_assoc]
      exact .map (.after _ (fun _ => .lit text _) goesOn)
  · exact .map (.seq (.lit starts))

/-- What ends a value: the end of its statement, or of the block around it. -/
def enders : List Char :=
  [';', '\x7d']

/-- A word is a name that may start with hyphens. -/
theorem takes_hyphenName (h : IsWord w) (stops : Stops Name.isPart rest) :
    Takes file hyphenName w rest (· = String.ofList w) := by
  obtain ⟨x, cs, rfl, hx, first, others⟩ := h.exists_takes file stops
  have hyphen : Takes file (.opt (.char (· == '-'))) [] ([x] ++ (cs ++ rest)) (· = none) :=
    .opt_none (.of_mem hx (by decide))
  exact (hyphen.map_eq.app_eq first).app_eq others

/-- The first of some texts that is there is taken, if there is one. -/
theorem gives_oneOf (first : String) (others : List String) (c : Cursor) :
    Gives (.oneOf first others) c .fail ∨ ∃ t ∈ first :: others, t.toList <+: c.rest ∧
      Gives (.oneOf first others) c (.ok t (c.skip t.toList.length)) := by
  induction others generalizing first with
  | nil =>
    by_cases h : first.toList <+: c.rest
    · exact .inr ⟨first, by simp, h, .map (.lit h)⟩
    · exact .inl (.map_fail (.lit_fail h))
  | cons t others ih =>
    by_cases h : first.toList <+: c.rest
    · exact .inr ⟨first, by simp, h, .alt (.map (.lit h))⟩
    · have failed : Gives (.map (fun _ => first) (.lit first)) c .fail :=
        .map_fail (.lit_fail h)
      rcases ih t with fails | ⟨t', mem, starts, taken⟩
      · exact .inl (.alt_else failed fails)
      · exact .inr ⟨t', List.mem_cons_of_mem _ mem, starts, .alt_else failed taken⟩

/-- What ends a value is no small letter. -/
theorem not_lower_of_mem_enders (hx : x ∈ enders) : x.isLower = false := by
  simp only [enders, List.mem_cons, List.not_mem_nil, or_false] at hx
  rcases hx with rfl | rfl <;> decide

/-- What ends a value is no part of a name. -/
theorem not_part_of_mem_enders (hx : x ∈ enders) : Name.isPart x = false := by
  simp only [enders, List.mem_cons, List.not_mem_nil, or_false] at hx
  rcases hx with rfl | rfl <;> decide

/-- A word that is a value is no function with an argument of its own. -/
theorem fails_rawFunction (h : IsWord w) (hx : x ∈ enders) :
    Fails (on .rawFunction) (w ++ x :: rest) := by
  refine .call fun c hc => ?_
  rcases gives_oneOf "url" ["calc", "-webkit-calc", "-moz-calc"] c with
    fails | ⟨t, mem, starts, taken⟩
  · exact .map_fail (.seq_fail (.map_fail fails))
  · have part : t.toList <+: w := by
      rw [hc] at starts
      obtain ⟨y, cs, rfl⟩ := List.exists_cons_of_ne_nil h.nonempty
      have ends : Stops Char.isLower (x :: rest) := stops_cons.2 (not_lower_of_mem_enders hx)
      have noHyphen : y ≠ '-' := forall_lower (P := (· ≠ '-')) (by decide) (h.lower y (by simp))
      simp only [List.mem_cons, List.not_mem_nil, or_false] at mem
      rcases mem with rfl | rfl | rfl | rfl
      · exact prefix_of_stops (by decide) ends starts
      · exact prefix_of_stops (by decide) ends starts
      · exact absurd (List.cons_prefix_cons.1 starts).1.symm noHyphen
      · exact absurd (List.cons_prefix_cons.1 starts).1.symm noHyphen
    obtain ⟨us, rfl⟩ := part
    have next : ∃ y tail, us ++ x :: rest = y :: tail ∧ y ∈ letters ++ enders := by
      cases us with
      | nil => exact ⟨x, rest, rfl, by simp [hx]⟩
      | cons y us =>
        exact ⟨y, us ++ x :: rest, rfl, by simp [mem_letters_of_lower (h.lower y (by simp))]⟩
    obtain ⟨y, tail, e, hy⟩ := next
    have noBracket : Fails
        (.lit "(" *> .span (fun c => c != '(' && c != ')') <* .lit ")" : Peg Rule _)
        (y :: tail) := .of_mem hy (by decide)
    have left : (c.skip t.toList.length).rest = y :: tail := by
      rw [← e]
      exact rest_skip_of_eq (by rw [hc, List.append_assoc])
    exact .map_fail (.seq_fail_after (.map taken) (noBracket _ left))

/-- A word that is a value is no call. -/
theorem fails_call (h : IsWord w) (hx : x ∈ enders) : Fails (on .call) (w ++ x :: rest) :=
  .call (.map (.after _
    (fun _ => (Takes.call (takes_hyphenName h (stops_cons.2 (not_part_of_mem_enders hx)))).map_eq)
    (.of_mem hx (by decide))))

/-- What opens a hole. -/
def hole : List Char :=
  "#\x7b".toList

/-- There is no interpolation where no hole starts. -/
theorem fails_interpolation (h : ¬hole <+: ts) : Fails (on .interpolation) ts :=
  .call (.map (.seq (.map (.seq (.map (.seq (.map (.seq (.lit h)))))))))

/-- A run of characters of names, before what opens no hole. -/
theorem fails_interpolatedIdent_of_run {y : Char} (some : ts ≠ [])
    (part : ∀ z ∈ ts, Name.isPart z = true) (hy : Name.isPart y = false) (noHash : y ≠ '#') :
    Fails (on .interpolatedIdent) (ts ++ y :: rest) := by
  obtain ⟨z, cs, rfl⟩ := List.exists_cons_of_ne_nil some
  obtain ⟨hz, hcs⟩ := List.forall_mem_cons.1 part
  have chunk (file : String) :
      Takes file (on .identChunk) (z :: cs) (y :: rest) (· = String.ofList (z :: cs)) := by
    have first : Takes file (.char Name.isPart) [z] (cs ++ y :: rest) (· = z) := .char hz _
    have others : Takes file (.span Name.isPart) cs (y :: rest) (· = cs) :=
      .span hcs (stops_cons.2 hy)
    exact .call (first.seq_eq others).map_eq.map_eq
  have noHole : Fails (on .interpolation) (y :: rest) :=
    fails_interpolation fun starts => noHash (List.cons_prefix_cons.1 starts).1.symm
  exact .call (.map (.after (fun _ => True)
    (fun file => .map ((Takes.opt_some (by simp) (chunk file)).mono fun _ _ => trivial))
    (.plus (List.cons_ne_nil y rest) (.map (.seq (.map noHole))))))

/-- A word that is a value has no holes. -/
theorem fails_interpolatedIdent (h : IsWord w) (hx : x ∈ enders) :
    Fails (on .interpolatedIdent) (w ++ x :: rest) :=
  fails_interpolatedIdent_of_run h.nonempty (fun y hy => isPart_of_lower (h.lower y hy))
    (not_part_of_mem_enders hx) ((by decide : ∀ x ∈ enders, x ≠ '#') x hx)

/-- A word is what it says. -/
theorem takes_primary (h : IsWord w) (hx : x ∈ enders) :
    Takes file (on .primary) w (x :: rest) (· = Expr.ofWord (String.ofList w)) := by
  have word : Takes file (on .ident) w (x :: rest) (· = Expr.ofWord (String.ofList w)) :=
    .call (takes_hyphenName h (stops_cons.2 (not_part_of_mem_enders hx))).map_eq
  refine .call ?_
  refine .alt_else (.of_word h (by decide)) ?_
  refine .alt_else (fails_rawFunction h hx) ?_
  refine .alt_else (fails_call h hx) ?_
  refine .alt_else (.of_word h (by decide)) ?_
  refine .alt_else (.of_word h (by decide)) ?_
  refine .alt_else (.of_word h (by decide)) ?_
  refine .alt_else (fails_interpolatedIdent h hx) ?_
  refine .alt_else (.of_word h (by decide)) ?_
  exact .alt_else (.of_word h (by decide)) word

/-- A word is no `not` with an operand. -/
theorem fails_not (h : IsWord w) (hx : x ∈ enders) :
    Fails (on .notOp *> on .unary : Peg Rule Expr) (w ++ x :: rest) := by
  have noSpace : Text.isSpace x = false := by
    simp only [enders, List.mem_cons, List.not_mem_nil, or_false] at hx
    rcases hx with rfl | rfl <;> decide
  have noOperand : Fails (on .unary) (x :: rest) := .of_mem hx (by decide)
  by_cases isNot : w = "not".toList
  · subst isNot
    refine .map (.after (· = ()) (fun file => .call ?_) noOperand)
    exact (takes_keyword "not" (stops_cons.2 (not_part_of_mem_enders hx))).left_nil
      (takes_gap (by simp) (stops_cons.2 noSpace))
  · refine .map (.seq (.call (.map (.seq ?_))))
    exact fails_keyword (by decide) h.lower (stops_cons.2 (not_lower_of_mem_enders hx)) isNot

/-- A word alone is an operand. -/
theorem takes_unary (h : IsWord w) (hx : x ∈ enders) :
    Takes file (on .unary) w (x :: rest) (· = Expr.ofWord (String.ofList w)) :=
  .call (.alt_else (.map (fails_not h hx)) (.alt (takes_primary h hx)))

/-- The first of some expressions that no other one follows. -/
theorem takes_alone {p : Peg Rule α} {q : Peg Rule β} {f : α → List β → γ} {a : α}
    (hp : Takes file p ts (x :: rest) (· = a)) (hx : x ∈ enders)
    (hq : ∀ x ∈ enders, forecast [x] 200 q = .fails) :
    Takes file (f <$> p <*> .star q) ts (x :: rest) (· = f a []) :=
  hp.map_eq.app_nil (.star_end (.of_mem hx hq))

/-- A product that no operator follows is the whole value. -/
theorem takes_product {e : Expr} (h : Takes file (on .mulExpr) ts (x :: rest) (· = e))
    (hx : x ∈ enders) : Takes file (on .commaList) ts (x :: rest) (· = e) := by
  have sum : Takes file (on .addExpr) ts (x :: rest) (· = e) :=
    .call (takes_alone h hx (by decide))
  have comparison : Takes file (on .relExpr) ts (x :: rest) (· = e) :=
    .call (takes_alone sum hx (by decide))
  have equality : Takes file (on .eqExpr) ts (x :: rest) (· = e) :=
    .call (takes_alone comparison hx (by decide))
  have conjunction : Takes file (on .andExpr) ts (x :: rest) (· = e) :=
    .call (takes_alone equality hx (by decide))
  have disjunction : Takes file (on .orExpr) ts (x :: rest) (· = e) :=
    .call (takes_alone conjunction hx (by decide))
  have spaced : Takes file (on .spaceList) ts (x :: rest) (· = e) :=
    .call (takes_alone disjunction hx (by decide))
  exact .call (takes_alone spaced hx (by decide))

/-- **A word that is a value reads as itself.** -/
theorem takes_value (h : IsWord w) (hx : x ∈ enders) :
    Takes file (on .commaList) w (x :: rest) (· = Expr.ofWord (String.ofList w)) :=
  takes_product (.call (takes_alone (takes_unary h hx) hx (by decide))) hx

end Grammar
end Stylesheet
