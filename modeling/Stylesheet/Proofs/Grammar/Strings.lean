/-
# Quoted strings

A string in quotes is written with a backslash before every backslash and every double quote
of its text (`Value.quote`).  The grammar reads what is between the quotes in pieces: a run of
plain characters, the character after a backslash, or a number sign that opens no hole.  So
what is written for a piece of the text reads as the piece (`Grammar.exists_piece`), and the
pieces are put together to the text again (`Grammar.takes_pieces`).

A number sign is never written right before a brace that does not follow it in the text
(`Grammar.not_hole_escape`).  So a text that opens no hole is read back as it is
(`Expr.parse_css_string`).
-/

import Stylesheet.Proofs.Grammar.Operators

namespace Stylesheet
namespace Value

/-- Whether a backslash goes before a character in quotes. -/
def isEscaped (x : Char) : Bool :=
  x = '\\' || x = '"'

/-- A backslash goes before some characters of a text and not before others. -/
theorem escapeChars_cons (x : Char) (cs : List Char) :
    escapeChars (x :: cs) =
      if isEscaped x then '\\' :: x :: escapeChars cs else x :: escapeChars cs :=
  rfl

/-- A text is escaped character by character. -/
theorem escapeChars_append (cs ds : List Char) :
    escapeChars (cs ++ ds) = escapeChars cs ++ escapeChars ds := by
  induction cs with
  | nil => rfl
  | cons x cs ih =>
    rw [List.cons_append, escapeChars_cons, escapeChars_cons, ih]
    split <;> rfl

/-- Escaping takes no characters away. -/
theorem escapeChars_ne_nil {cs : List Char} (h : cs ≠ []) : escapeChars cs ≠ [] := by
  obtain ⟨x, cs, rfl⟩ := List.exists_cons_of_ne_nil h
  rw [escapeChars_cons]
  split <;> simp

end Value

namespace Grammar

open Value

variable {file : String} {k m : Nat} {ts us cs rest : List Char} {e : Expr} {x : Char}

/-! ### What is written in quotes -/

/-- The characters of a string that stand for themselves wherever they are. -/
def isPlain (x : Char) : Bool :=
  x != '"' && x != '\\' && x != '#'

/-- A character is not plain if it is escaped, or may start a hole. -/
theorem isPlain_eq_false : isPlain x = false ↔ isEscaped x = true ∨ x = '#' := by
  simp only [isPlain, isEscaped, Bool.and_eq_false_iff, bne_eq_false_iff_eq, Bool.or_eq_true,
    decide_eq_true_eq]
  exact or_congr_left Or.comm

/-- A plain text needs no backslash. -/
theorem escapeChars_of_plain (plain : ∀ x ∈ cs, isPlain x = true) : escapeChars cs = cs := by
  induction cs with
  | nil => rfl
  | cons x cs ih =>
    obtain ⟨hx, hcs⟩ := List.forall_mem_cons.1 plain
    have notEscaped : ¬isEscaped x = true := fun escaped => by
      simp [isPlain_eq_false.2 (.inl escaped)] at hx
    rw [escapeChars_cons, if_neg notEscaped, ih hcs]

/-- A run of plain characters ends in quotes where it ends in the text. -/
theorem stops_escape (stops : Stops isPlain cs) (rest : List Char) :
    Stops isPlain (escapeChars cs ++ '"' :: rest) := by
  cases cs with
  | nil => exact stops_cons.2 (by decide)
  | cons x cs =>
    rw [escapeChars_cons]
    split
    · exact stops_cons.2 (by decide)
    · exact stops_cons.2 (stops_cons.1 stops)

/-- What is written in quotes starts with a character that is neither a quote nor a backslash
only if the text does. -/
theorem exists_cons_of_escape {tail : List Char} (notEscaped : isEscaped x = false)
    (starts : x :: tail <+: escapeChars cs ++ '"' :: rest) :
    ∃ ds, cs = x :: ds ∧ tail <+: escapeChars ds ++ '"' :: rest := by
  cases cs with
  | nil =>
    obtain ⟨rfl, -⟩ := List.cons_prefix_cons.1 starts
    exact absurd notEscaped (by decide)
  | cons y ds =>
    rw [escapeChars_cons] at starts
    split at starts
    · obtain ⟨rfl, -⟩ := List.cons_prefix_cons.1 starts
      exact absurd notEscaped (by decide)
    · obtain ⟨rfl, more⟩ := List.cons_prefix_cons.1 starts
      exact ⟨ds, rfl, more⟩

/-- No brace follows in quotes where none follows in the text. -/
theorem not_brace_escape (noBrace : ¬['\x7b'] <+: cs) (rest : List Char) :
    ¬['\x7b'] <+: escapeChars cs ++ '"' :: rest := by
  intro starts
  obtain ⟨ds, rfl, -⟩ := exists_cons_of_escape (by decide) starts
  exact noBrace (List.prefix_append ['\x7b'] ds)

/-- **No hole is opened in quotes where none is opened in the text.** -/
theorem not_hole_escape (noHole : ¬hole <+: cs) (rest : List Char) :
    ¬hole <+: escapeChars cs ++ '"' :: rest := by
  intro starts
  obtain ⟨ds, rfl, brace⟩ := exists_cons_of_escape (by decide) starts
  exact not_brace_escape
    (fun here => noHole (List.cons_prefix_cons.2 ⟨rfl, here⟩)) rest brace

/-! ### Pieces of a text -/

/-- No run starts with a character that is not plain. -/
theorem fails_run (h : isPlain x = false) : Fails (.spanOne isPlain) (x :: rest) :=
  .map (.seq (.char (stops_cons.2 h)))

/-- A run of plain characters is one piece of a string. -/
theorem takes_run (some : ts ≠ []) (plain : ∀ x ∈ ts, isPlain x = true)
    (stops : Stops isPlain rest) : Takes file (stringPiece '"') ts rest (· = ts) :=
  .alt (.spanOne some plain stops)

/-- The character after a backslash. -/
theorem takes_escaped (x : Char) (rest : List Char) :
    Takes file (stringPiece '"') ['\\', x] rest (· = [x]) := by
  have after : Takes file (.lit "\\" *> .char fun _ => true) (['\\'] ++ [x]) rest (· = x) :=
    (Takes.lit "\\" _).right (.char rfl rest)
  exact .alt_else (fails_run (by decide)) (.alt after.map_eq)

/-- A number sign that opens no hole. -/
theorem takes_numberSign (noBrace : ¬['\x7b'] <+: rest) :
    Takes file (stringPiece '"') ['#'] rest (· = ['#']) := by
  have sign : Takes file (.lit "#" <* .no (.lit "\x7b")) ['#'] rest (· = ()) :=
    (Takes.lit "#" rest).left_nil (.no (.lit noBrace))
  exact .alt_else (fails_run (by decide))
    (.alt_else (.of_forecast ['#'] 200 (by decide) rest) sign.map_eq)

/-- **A text starts with a piece** that is read from what is written for it. -/
theorem exists_piece (some : cs ≠ []) (noHole : ¬hole <+: cs) :
    ∃ ts us, cs = ts ++ us ∧ ts ≠ [] ∧ ∀ file rest,
      Takes file (stringPiece '"') (escapeChars ts) (escapeChars us ++ '"' :: rest) (· = ts) := by
  obtain ⟨x, cs, rfl⟩ := List.exists_cons_of_ne_nil some
  cases plain : isPlain x with
  | true =>
    obtain ⟨ts, us, e, all, stops⟩ := exists_run isPlain (x :: cs)
    have nonempty : ts ≠ [] := by
      rintro rfl
      rw [List.nil_append] at e
      rw [← e, stops_cons, plain] at stops
      cases stops
    refine ⟨ts, us, e, nonempty, fun file rest => ?_⟩
    rw [escapeChars_of_plain all]
    exact takes_run nonempty all (stops_escape stops rest)
  | false =>
    refine ⟨[x], cs, rfl, List.cons_ne_nil x [], fun file rest => ?_⟩
    rcases isPlain_eq_false.1 plain with escaped | rfl
    · rw [escapeChars_cons, if_pos escaped]
      exact takes_escaped x _
    · have noBrace : ¬['\x7b'] <+: cs := fun starts =>
        noHole (List.cons_prefix_cons.2 ⟨rfl, starts⟩)
      exact takes_numberSign (not_brace_escape noBrace rest)

/-- **The pieces of a text** that are read from what is written for it make up the text. -/
theorem takes_pieces (cs : List Char) (noHole : ¬hole <:+: cs) (file : String)
    (rest : List Char) :
    Takes file (.star (stringPiece '"')) (escapeChars cs) ('"' :: rest) (·.flatten = cs) := by
  by_cases some : cs = []
  · rw [some]
    exact (Takes.star_end (.of_forecast ['"'] 200 (by decide) rest)).mono fun _ e =>
      congrArg List.flatten e
  · -- the induction is on the length: a run is as long as it can be, so it is no single character
    obtain ⟨ts, us, e, nonempty, piece⟩ := exists_piece some fun h => noHole h.isInfix
    have less : us.length < cs.length := by
      have := List.length_pos_iff.2 nonempty
      rw [e, List.length_append]
      omega
    have later : ¬hole <:+: us := fun h => noHole (e ▸ h.trans (List.suffix_append ts us).isInfix)
    have whole := Takes.star_more (escapeChars_ne_nil nonempty) (piece file rest)
      (takes_pieces us later file rest)
    rw [e, escapeChars_append]
    refine whole.mono ?_
    rintro _ ⟨_, as, rfl, rfl, flat⟩
    rw [List.flatten_cons, flat]
termination_by cs.length

/-! ### Strings -/

/-- What stands between two quotes: a hole, or a text. -/
def stringPart : Peg Rule (Fragment Expr) :=
  (Fragment.hole <$> on .interpolation) <|>
    ((fun pieces => Fragment.text (String.ofList pieces.flatten)) <$> .plus (stringPiece '"'))

/-- A string is its parts between quotes. -/
theorem body_doubleQuoted :
    body .doubleQuoted =
      (Expr.quotedOf <$> (.char (· == '"') *> .star stringPart <* .char (· == '"'))) :=
  rfl

/-- A text between two quotes is one part, if it is not empty. -/
theorem takes_stringPart (some : cs ≠ []) (noHole : ¬hole <:+: cs) (rest : List Char) :
    Takes file stringPart (escapeChars cs) ('"' :: rest) (· = .text (String.ofList cs)) := by
  obtain ⟨ts, us, e, nonempty, piece⟩ := exists_piece some fun h => noHole h.isInfix
  have later : ¬hole <:+: us := fun h => noHole (e ▸ h.trans (List.suffix_append ts us).isInfix)
  have pieces := (piece file rest).plus (escapeChars_ne_nil nonempty)
    (takes_pieces us later file rest)
  rw [← escapeChars_append, ← e] at pieces
  refine .alt_else (.map (fails_interpolation ?_)) (.map (pieces.mono ?_))
  · exact not_hole_escape (fun h => noHole h.isInfix) rest
  · rintro _ ⟨_, as, rfl, rfl, flat⟩
    rw [List.flatten_cons, flat, ← e]

/-- The parts of a text without holes. -/
def partsOf (cs : List Char) : List (Fragment Expr) :=
  if cs = [] then [] else [.text (String.ofList cs)]

/-- A text without holes is a string literal. -/
theorem quotedOf_partsOf (cs : List Char) :
    Expr.quotedOf (partsOf cs) = .literal (.string (String.ofList cs) true) := by
  unfold partsOf
  split
  · rename_i empty
    rw [empty]
    rfl
  · simp [Expr.quotedOf, String.join]

/-- The parts of a text are read up to the quote that ends it. -/
theorem takes_parts (noHole : ¬hole <:+: cs) (rest : List Char) :
    Takes file (.star stringPart) (escapeChars cs) ('"' :: rest) (· = partsOf cs) := by
  have ends : Takes file (.star stringPart) [] ('"' :: rest) (· = []) :=
    .star_end (.of_forecast ['"'] 200 (by decide) rest)
  unfold partsOf
  split
  · rename_i empty
    rwa [empty]
  · rename_i some
    have whole : Takes file (.star stringPart) (escapeChars cs ++ []) ('"' :: rest) _ :=
      .star_more (escapeChars_ne_nil some) (takes_stringPart some noHole rest) ends
    rw [List.append_nil] at whole
    refine whole.mono ?_
    rintro _ ⟨_, _, rfl, rfl, rfl⟩
    rfl

/-- **A text in quotes is read as the string that it is.** -/
theorem takes_quoted (noHole : ¬hole <:+: cs) (rest : List Char) :
    Takes file (on .primary) ('"' :: escapeChars cs ++ ['"']) rest
      (· = .literal (.string (String.ofList cs) true)) := by
  have opens : Takes file (.char (· == '"')) ['"'] (escapeChars cs ++ '"' :: rest) (· = '"') :=
    .char (by decide) _
  have closes : Takes file (.char (· == '"')) ['"'] rest (· = '"') := .char (by decide) _
  have whole : Takes file (on .doubleQuoted) ('"' :: escapeChars cs ++ ['"']) rest
      (· = .literal (.string (String.ofList cs) true)) := by
    refine .call ?_
    rw [body_doubleQuoted, ← quotedOf_partsOf]
    exact ((opens.right (takes_parts noHole rest)).left closes).map_eq
  have quoted : Takes file (on .quoted) _ rest _ := .call whole.alt
  exact .call (takes_choice 5 ['"'] (by decide) (List.prefix_append ['"'] _) quoted.alt)

/-- What is read as an operand is read at every level, if no operator follows. -/
theorem Accepts.mono (h : Accepts m ts e) (le : k ≤ m) (le' : m ≤ 6) : Accepts k ts e := by
  induction m with
  | zero => exact Nat.le_zero.1 le ▸ h
  | succ m ih =>
    rcases Nat.le_succ_iff.1 le with less | rfl
    · have le : m ≤ 5 := Nat.le_of_succ_le_succ le'
      exact ih ((h.joins le).accepts le) less (Nat.le_succ_of_le le)
    · exact h

/-- Nothing is tried before a text in quotes that is no operator's operand. -/
theorem accepts_quoted (noHole : ¬hole <:+: cs) :
    Accepts 6 ('"' :: escapeChars cs ++ ['"']) (.literal (.string (String.ofList cs) true)) :=
  fun _ rest _ => .call (takes_choice 1 ['"'] (by decide) (List.prefix_append ['"'] _)
    (takes_quoted noHole rest).alt)

end Grammar

/-- **A string in quotes is the expression that its text in CSS is**, if it opens no hole. -/
theorem Expr.parse_css_string {v : String} (noHole : ¬Grammar.hole <:+: v.toList) :
    ∃ text, (Value.string v true).css = .ok text ∧
      Expr.parse text = .ok (.literal (.string v true)) := by
  refine ⟨Value.quote v, rfl, ?_⟩
  have accepts := (Grammar.accepts_quoted noHole).mono (Nat.zero_le 6) (Nat.le_refl 6)
  rw [String.ofList_toList] at accepts
  have trimmed : Text.trimChars (Value.quote v).toList =
      '"' :: Value.escapeChars v.toList ++ ['"'] := by
    rw [Value.quote, String.toList_ofList]
    have last : ('"' :: Value.escapeChars v.toList ++ ['"']).reverse =
        '"' :: ('"' :: Value.escapeChars v.toList).reverse := List.reverse_concat ..
    exact Text.trimChars_append (g := []) (by simp [Text.Blanks]) rfl (by decide) last (by decide)
  obtain ⟨_, rfl, given⟩ := Grammar.takes_commaList (accepts Expr.fileName [] .nil) .nil
    (.start Expr.fileName _) rfl (List.append_nil _).symm
  exact Expr.parse_of_gives (trimmed.symm ▸ given) (by simp [Cursor.start])

/-- With a line break, a backslash before it, and a quote between a number sign and a brace. -/
theorem Expr.parse_css_string_escaped :
    ¬Grammar.hole <:+: "\\\n#\"\x7b".toList ∧
      (Value.string "\\\n#\"\x7b" true).css = .ok "\"\\\\\n#\\\"\x7b\"" ∧
      Expr.parse "\"\\\\\n#\\\"\x7b\"" = .ok (.literal (.string "\\\n#\"\x7b" true)) := by
  have noHole : ¬Grammar.hole <:+: "\\\n#\"\x7b".toList := by decide +kernel
  have written : Value.quote "\\\n#\"\x7b" = "\"\\\\\n#\\\"\x7b\"" := by decide
  obtain ⟨text, css, parsed⟩ := Expr.parse_css_string noHole
  cases css
  exact ⟨noHole, congrArg Except.ok written, written ▸ parsed⟩

end Stylesheet
