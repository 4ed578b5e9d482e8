/-
# Where a keyword ends

In the brace syntax a keyword goes on to the last character of a name
(`Grammar.gives_keyword_iff`).  A statement without a block is told apart by how it starts, so one
of the keywords that have a block is found in every longer name as well
(`Indentation.ending_of_atRule`): what comes of an at-rule is right unless its keyword
goes on after one of these.
-/

import Stylesheet.Proofs.Grammar.Leads
import Stylesheet.Proofs.Grammar.Words
import Stylesheet.Proofs.Indentation.FrontEnds
import Stylesheet.Proofs.Indentation.Roles

namespace Stylesheet
namespace Grammar

variable {c : Cursor} {k word rest : List Char}

/-- **A keyword is a whole run of the characters of names.** -/
theorem gives_keyword_iff (parts : ∀ x ∈ k, Name.isPart x = true)
    (run : ∀ x ∈ word, Name.isPart x = true) (stops : Stops Name.isPart rest)
    (hc : c.rest = '@' :: (word ++ rest)) :
    (∃ d, Gives (keyword (String.ofList ('@' :: k))) c (.ok () d)) ↔ k = word := by
  constructor
  · rintro ⟨d, gives⟩
    by_contra other
    have fails : Fails (keyword (String.ofList ('@' :: k))) ('@' :: (word ++ rest)) := by
      by_cases starts : k <+: word
      · obtain ⟨us, rfl⟩ := starts
        cases us with
        | nil => simp at other
        | cons x us =>
          have part : Name.isPart x = true := run x (by simp)
          have goesOn : Fails (.no (on .nameChar)) ([x] ++ (us ++ rest)) :=
            .no fun _ => takes_nameChar part _
          have fails : Fails (keyword (String.ofList ('@' :: k)))
              ((String.ofList ('@' :: k)).toList ++ ([x] ++ (us ++ rest))) :=
            .map (.after _ (fun _ => .lit _ _) goesOn)
          simpa using fails
      · refine .map (.seq (.lit fun starts' => starts ?_))
        rw [String.toList_ofList, List.cons_prefix_cons] at starts'
        exact prefix_of_stops parts stops starts'.2
    cases gives.unique (fails c hc)
  · rintro rfl
    obtain ⟨_, rfl, gives⟩ :=
      takes_keyword (String.ofList ('@' :: k)) stops c rfl (by simpa using hc)
    exact ⟨_, gives⟩

end Grammar

namespace Indentation

open Text Outline Grammar

variable {source below : List (Option Line)} {before after : List Line} {line : Line}
  {rest : List Char} {current : Option OpenComment}

/-- The statement of a line, if it is one. -/
def Role.statement? : Role → Option Line
  | .statement line => some line
  | _ => none

/-- The statements among the lines of a source: those that are no comments. -/
def statementLines (source : List (Option Line)) : List Line :=
  (roles none source).filterMap Role.statement?

/-- The keyword of an at-rule without its mark: the run of the characters of names after it. -/
def keywordOf (rest : List Char) : List Char :=
  rest.takeWhile Name.isPart

/-- Whether a keyword has one of those with a block at its start. -/
def StartsBlock (word : List Char) : Prop :=
  ∃ k ∈ blockKeywords, k.toList <+: '@' :: word

/-- Whether a keyword is one of those with a block. -/
def HasBlock (word : List Char) : Prop :=
  ∃ k ∈ blockKeywords, k.toList = '@' :: word

instance (word : List Char) : Decidable (StartsBlock word) :=
  inferInstanceAs (Decidable (∃ k ∈ blockKeywords, k.toList <+: '@' :: word))

instance (word : List Char) : Decidable (HasBlock word) :=
  inferInstanceAs (Decidable (∃ k ∈ blockKeywords, k.toList = '@' :: word))

/-- What an at-rule without a block ends with, depending on whether its keyword has one. -/
def endOf (hasBlock : Bool) : List Char :=
  if hasBlock then " \x7b\x7d".toList else [';']

/-- Which of the keywords with a block a text starts with is told by its own keyword. -/
theorem startsWith_iff {k : String} (hk : k ∈ blockKeywords) (rest : List Char) :
    startsWith ('@' :: rest) k.toList = true ↔ k.toList <+: '@' :: keywordOf rest := by
  have spelled : ∀ k ∈ blockKeywords, k.toList = '@' :: k.toList.tail ∧
      ∀ x ∈ k.toList.tail, Name.isPart x = true := by decide
  obtain ⟨e, parts⟩ := spelled k hk
  rw [startsWith, List.isPrefixOf_iff_prefix, e, List.cons_prefix_cons, List.cons_prefix_cons]
  refine and_congr_right fun _ => ⟨fun starts => ?_, fun starts => ?_⟩
  · obtain ⟨word, more, rfl, run, stops⟩ := exists_run Name.isPart rest
    rw [keywordOf, takeWhile_of_stops run stops]
    exact prefix_of_stops parts stops starts
  · exact starts.trans (List.takeWhile_prefix _)

/-- What is written after an at-rule without a block. -/
theorem ending_atRule (rest : List Char) :
    ending ('@' :: rest) = endOf (StartsBlock (keywordOf rest)) := by
  have found : (blockKeywords.any fun k => startsWith ('@' :: rest) k.toList) =
      decide (StartsBlock (keywordOf rest)) := by
    rw [Bool.eq_iff_iff, List.any_eq_true, decide_eq_true_eq]
    exact exists_congr fun k => and_congr_right fun hk => startsWith_iff hk rest
  unfold ending endOf
  dsimp only
  rw [found]
  rfl

/-- A keyword with a block starts one. -/
theorem startsBlock_of_hasBlock {word : List Char} (h : HasBlock word) : StartsBlock word := by
  obtain ⟨k, hk, e⟩ := h
  exact ⟨k, hk, e ▸ List.prefix_rfl⟩

/-- An end tells whether the keyword has a block. -/
theorem endOf_inj {b b' : Bool} : endOf b = endOf b' ↔ b = b' := by
  revert b b'
  decide

/-- No end goes on with a name. -/
theorem stops_append_endOf {more : List Char} (stops : Stops Name.isPart more) (b : Bool)
    (tail : List Char) : Stops Name.isPart (more ++ endOf b ++ tail) := by
  have first : ∃ x xs, endOf b = x :: xs ∧ Name.isPart x = false := by
    cases b
    · exact ⟨';', [], rfl, rfl⟩
    · exact ⟨' ', ['\x7b', '\x7d'], rfl, rfl⟩
  obtain ⟨x, xs, e, hx⟩ := first
  rw [e, List.append_assoc]
  exact stops.append hx

/-! ### The lines of statements -/

/-- A statement is where the source has it. -/
theorem getElem?_of_roles {i : Nat} (h : (roles current source)[i]? = some (.statement line)) :
    source[i]? = some (some line) := by
  fun_induction roles current source generalizing i with
  | case1 => simp at h
  | case2 current rest ih | case3 current line' rest c _ ih | case4 current line' rest _ c _ ih =>
    cases i with
    | zero => cases h
    | succ i => exact ih h
  | case5 current line' rest _ _ ih =>
    cases i with
    | zero =>
      cases h
      rfl
    | succ i => exact ih h

/-- The next column is that of the first statement among the roles. -/
theorem nextColumn?_eq_head? (rs : List Role) :
    nextColumn? rs = (rs.filterMap Role.statement?).head?.map Line.column := by
  induction rs with
  | nil => rfl
  | cons role rs ih => cases role <;> first | exact ih | rfl

/-- A statement with its line. -/
theorem exists_roles_of_statementLines {raw : List (List Char)}
    (found : statementLines (raw.mapIdx lineOf?) = before ++ line :: after) :
    ∃ rs rs', roles none (raw.mapIdx lineOf?) = rs ++ .statement line :: rs' ∧
      rs.length = line.number ∧ nextColumn? rs' = after.head?.map Line.column := by
  obtain ⟨rs, more, e, -, hmore⟩ := List.filterMap_eq_append_iff.1 found
  obtain ⟨comments, role, rs', rfl, -, here, rfl⟩ := List.filterMap_eq_cons_iff.1 hmore
  cases role with
  | blank | comment => cases here
  | statement line' =>
    cases here
    have here : (roles none (raw.mapIdx lineOf?))[(rs ++ comments).length]? =
        some (.statement line) := by
      rw [e, ← List.append_assoc, List.getElem?_append_right (Nat.le_refl _), Nat.sub_self]
      rfl
    exact ⟨rs ++ comments, rs', by rw [e, List.append_assoc],
      (number_of_getElem? (getElem?_of_roles here)).symm, nextColumn?_eq_head? rs'⟩

/-- **Where the keyword of an at-rule without a block ends.**  The translation of an at-rule
that no deeper statement follows has an empty block if one of the keywords that have a block
starts its keyword, and is ended otherwise.  The grammar finds only the whole keyword there.  So
what is written is right just if the keyword is not a longer one than those. -/
theorem ending_of_atRule {file text out : String} {log : Log}
    (ok : (toBraces file text log).1 = .ok out)
    (found : statementLines ((splitLines text.toList).mapIdx lineOf?) = before ++ line :: after)
    (childless : ∀ next ∈ after.head?, next.column ≤ line.column)
    (atRule : longForm line.content = '@' :: rest) :
    ∃ (above below : List (List Char)) (n : Nat) (final : List Char),
      let closing := (List.replicate n ['\x7d', ' ']).flatten
      out.toList = textOf (above ++ (closing ++ '@' :: (rest ++ final)) :: below) ∧
        above.length = line.number ∧
        final = endOf (StartsBlock (keywordOf rest)) ∧
        (∀ k : List Char, (∀ x ∈ k, Name.isPart x = true) →
          ((∃ d, Gives (keyword (String.ofList ('@' :: k)))
            (.after file (textOf above ++ closing) ('@' :: (rest ++ final) ++ '\n' :: textOf below))
            (.ok () d)) ↔ k = keywordOf rest)) ∧
        (final = endOf (HasBlock (keywordOf rest)) ↔
          (StartsBlock (keywordOf rest) → HasBlock (keywordOf rest))) := by
  obtain ⟨lines, closing, written, rfl⟩ := written_of_toBraces ok
  obtain ⟨rs, rs', e, number, next⟩ := exists_roles_of_statementLines found
  rw [e] at written
  obtain ⟨above, lines, rfl, length, written⟩ := written.exists_append
  cases written with
  | @statement _ below _ n rest' =>
    have shallow : (nextColumn? rs').any (line.column < ·) = false := by
      refine any_eq_false fun column hc => ?_
      rw [next] at hc
      obtain ⟨l, hl, rfl⟩ := Option.map_eq_some_iff.1 hc
      exact childless l hl
    rw [shallow]
    refine ⟨above, below ++ closing, n, endOf (StartsBlock (keywordOf rest)), ?_,
      length.trans number, rfl, fun k parts => ?_, ?_⟩
    · rw [toList_joinLines, braced, atRule, ending_atRule]
      simp
    · obtain ⟨word, more, e', run, stops⟩ := exists_run Name.isPart rest
      have whole : keywordOf rest = word := by
        rw [keywordOf, e', takeWhile_of_stops run stops]
      rw [whole]
      exact gives_keyword_iff parts run (stops_append_endOf stops (StartsBlock word)
        ('\n' :: textOf (below ++ closing))) (by simp [Cursor.after, Cursor.start, e'])
    · rw [endOf_inj, decide_eq_decide]
      exact ⟨Iff.mp, fun right => ⟨right, startsBlock_of_hasBlock⟩⟩

/-- A directive of another name is ended, and the grammar finds its name. -/
theorem ending_of_atRule_charset :
    ∃ (above below : List (List Char)) (n : Nat),
      let closing := (List.replicate n ['\x7d', ' ']).flatten
      "@charset x;\na \x7b\nb: c;\n\x7d\n".toList =
          textOf (above ++ (closing ++ "@charset x;".toList) :: below) ∧
        above.length = 0 ∧
        ∃ d, Gives (keyword "@charset") (.after "s" (textOf above ++ closing)
          ("@charset x;\n".toList ++ textOf below)) (.ok () d) := by
  have ok : (toBraces "s" "@charset x\na\n  b: c\n" {}).1 =
      .ok "@charset x;\na \x7b\nb: c;\n\x7d\n" := by decide +kernel
  have lines : statementLines ((splitLines "@charset x\na\n  b: c\n".toList).mapIdx lineOf?) =
      [] ++ ⟨0, 0, "@charset x".toList⟩ :: [⟨1, 0, ['a']⟩, ⟨2, 2, "b: c".toList⟩] := by
    decide +kernel
  have atRule : longForm "@charset x".toList = '@' :: "charset x".toList := by decide
  obtain ⟨above, below, n, _, written, number, rfl, found, -⟩ :=
    ending_of_atRule ok lines (by simp) atRule
  have ends : endOf (StartsBlock (keywordOf "charset x".toList)) = [';'] := by decide
  rw [ends] at written found
  exact ⟨above, below, n, written, number, (found "charset".toList (by decide)).2 (by decide)⟩

/-- A longer name than `for` has its block, too. -/
theorem toBraces_formula :
    (toBraces "s" "@formula x\n" {}).1 = .ok "@formula x \x7b\x7d\n" ∧
      keywordOf "formula x".toList = "formula".toList ∧ ¬HasBlock "formula".toList := by
  decide +kernel

end Indentation
end Stylesheet
