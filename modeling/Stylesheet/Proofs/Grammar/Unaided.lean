/-
# Matching the grammar without a table

`Document.parse` matches a text with a limited depth of recursion and with a table of what
is in brackets.  Neither can be seen in what it comes to: `Grammar.ranks` says how deep the
rules go until something is read, so that there is always enough fuel
(`Grammar.run_unaided_ne_exhausted`), and the table answers as a match without it would
(`Grammar.right_bracketTable`).  So a text is the style sheet that some match without a
table reads (`Document.parse_of_run`).
-/

import Stylesheet.Grammar
import Stylesheet.Proofs.Peg.Fuel

namespace Stylesheet

/-- The places from a cursor on, the last one first. -/
theorem Cursor.placesFrom_eq (n : Nat) (c : Cursor) (found : List Cursor) :
    placesFrom n c found = (List.range (n + 1)).reverse.map c.skip ++ found := by
  induction n generalizing c found with
  | zero => simp [placesFrom, List.range_succ, skip_zero]
  | succ n ih =>
    rw [placesFrom, ih, List.range_succ_eq_map (n := n + 1)]
    simp [Function.comp_def, skip_skip, skip_zero, Nat.add_comm]

namespace Peg

variable {β : Type}

/-- Whether the answers for some places, back from the end of a text, fit. -/
def AllFit (start : Cursor) (fits : Cursor → β → Prop) (later : Array β) : Prop :=
  ∀ k b, k ≤ start.left → later[(start.skip k).left]? = some b → fits (start.skip k) b

/-- **All answers of a table fit** if one does that is found with fitting ones at hand. -/
theorem allFit_table {answer : Array β → Cursor → β} {start : Cursor} {fits : Cursor → β → Prop}
    (step : ∀ later k, k ≤ start.left → AllFit start fits later →
      fits (start.skip k) (answer later (start.skip k))) :
    AllFit start fits (table answer start) := by
  -- over the number of places that are left to be answered
  have fold (j : Nat) : ∀ later : Array β, later.size + j = start.left + 1 →
      AllFit start fits later →
        AllFit start fits (((List.range j).reverse.map start.skip).foldl
          (fun later d => later.push (answer later d)) later) := by
    induction j with
    | zero => exact fun later _ h => h
    | succ j ih =>
      intro later size h
      rw [List.range_succ, List.reverse_append, List.map_append, List.foldl_append]
      refine ih _ (by simp; omega) fun k b hk found => ?_
      change (later.push (answer later (start.skip j)))[_]? = some b at found
      rw [Array.getElem?_push] at found
      split at found
      · rename_i here
        rw [Cursor.left_skip] at here
        obtain rfl : k = j := by omega
        cases found
        exact step later k hk h
      · exact h k b hk found
  have places := start.placesFrom_eq start.left []
  rw [List.append_nil] at places
  rw [table, Cursor.places, places]
  exact fold _ #[] (by simp) fun k b _ found => by simp at found

end Peg

namespace Grammar

/-- The grammar, with nothing known beforehand. -/
abbrev unaided : Peg.Rules Rule :=
  rules #[] #[]

/-- Nothing is known beforehand. -/
theorem unaided_plain : unaided.Plain := by
  intro α r c
  simp [rules]

/-- Whether a rule reads something whenever it matches. -/
def isEager {α : Type} : Rule α → Bool
  | .sheet | .stop | .eof | .bufferBody | .flushBody | .directiveBody | .gap => false
  | _ => true

/-- How many rules deep a match of a rule goes until something is read. -/
def level {α : Type} : Rule α → Nat
  | .sheet => 5
  | .statement => 4
  | .stop | .comment | .bufferName | .defaultFlag | .elseClause | .atValue | .paramList
  | .paramDefault | .callArgs | .propertyName | .selector | .notOp | .addTail | .call
  | .quoted | .interpolatedIdent => 2
  | .bufferBody | .flushBody | .directiveBody | .declaration | .rule | .primary => 3
  | .unary => 4
  | .mulExpr => 5
  | .addExpr => 6
  | .relExpr => 7
  | .eqExpr => 8
  | .andExpr => 9
  | .orExpr => 10
  | .spaceList => 11
  | .commaList | .arg => 12
  | .argList => 13
  | _ => 1

/-- How the rules of the grammar go down to what they read. -/
def ranks : Peg.Ranks Rule where
  eager := isEager
  rank r := 64 * level r

/-- The fuel for each character of a text. -/
def slack : Nat := 4096

/-- Every rule goes down to what it reads in as many steps as its rank allows. -/
theorem ground_ranks : ranks.Ground slack unaided where
  eager r h := by cases r <;> first | rfl | cases h
  rank r := by cases r <;> decide
  ground r := by cases r <;> decide

/-- Two matches that end come to the same, whatever fuel they have. -/
theorem run_unaided_eq {n m : Nat} {α : Type} {p : Peg Rule α} {c : Cursor}
    (hn : Peg.run unaided n p c ≠ .exhausted) (hm : Peg.run unaided m p c ≠ .exhausted) :
    Peg.run unaided n p c = Peg.run unaided m p c :=
  calc Peg.run unaided n p c
      = Peg.run unaided (max n m) p c :=
        (Peg.run_mono unaided_plain ground_ranks (Nat.le_max_left n m) hn).symm
    _ = Peg.run unaided m p c :=
        Peg.run_mono unaided_plain ground_ranks (Nat.le_max_right n m) hm

/-- **There is enough fuel** for an expression that goes no deeper than `slack` until
something is read. -/
theorem run_unaided_ne_exhausted {n : Nat} {α : Type} {p : Peg Rule α}
    (ground : p.ground ranks slack) (shallow : p.height ranks ≤ slack) {c : Cursor}
    (enough : (c.left + 1) * slack ≤ n) : Peg.run unaided n p c ≠ .exhausted := by
  refine Peg.run_ne_exhausted unaided_plain ground_ranks ground ?_
  rw [Nat.succ_mul] at enough
  omega

/-- No body of a rule goes deeper than `slack` until something is read. -/
theorem height_body_le {α : Type} (r : Rule α) : (body r).height ranks ≤ slack := by
  have shallow : 64 * level r ≤ slack := by cases r <;> decide
  exact Nat.le_trans (ground_ranks.rank r) shallow

/-- There is enough fuel for the body of a rule, wherever in a text it stands. -/
theorem run_body_ne_exhausted {fuel : Nat} {start : Cursor}
    (enough : (start.left + 1) * slack ≤ fuel) (k : Nat) {α : Type} (r : Rule α) :
    Peg.run unaided fuel (body r) (start.skip k) ≠ .exhausted := by
  have room : ((start.skip k).left + 1) * slack ≤ fuel :=
    Nat.le_trans (Nat.mul_le_mul_right slack (by simp)) enough
  exact run_unaided_ne_exhausted (ground_ranks.ground r) (height_body_le r) room

/-- Whether what is found at a place is what a match without a table comes to, however much
fuel it has, as long as it ends. -/
def Right (c : Cursor) (b : Brackets) : Prop :=
  ∀ {α : Type} (r : Rule α) (o : Outcome α), b.outcome? r = some o →
    ∀ n, Peg.run unaided n (body r) c ≠ .exhausted → Peg.run unaided n (body r) c = o

/-- A place further on is a place of the same text. -/
theorem exists_skip {start c : Cursor} {k : Nat} (hk : k ≤ c.left)
    (place : ∃ j, j ≤ start.left ∧ c = start.skip j) :
    ∃ j, j ≤ start.left ∧ c.skip k = start.skip j := by
  obtain ⟨j, hj, rfl⟩ := place
  rw [Cursor.left_skip] at hk
  exact ⟨j + k, by omega, start.skip_skip j k⟩

/-- A table whose answers are right makes rules that agree with those without it. -/
theorem agrees_rules {start : Cursor} {later : Array Brackets}
    (right : Peg.AllFit start Right later) :
    unaided.Agrees (rules later #[]) fun c => ∃ k, k ≤ start.left ∧ c = start.skip k where
  body _ := rfl
  known r c o := by
    rintro ⟨k, hk, rfl⟩ found
    obtain ⟨b, eb, e⟩ := Option.bind_eq_some_iff.1 found
    exact right k b hk eb r o e
  skip _ _ := exists_skip

/-- **A match with the table** comes to what one without it comes to. -/
theorem run_rules_eq {start : Cursor} {later : Array Brackets}
    (right : Peg.AllFit start Right later) {n m : Nat} (le : n ≤ m) {α : Type} {p : Peg Rule α}
    {k : Nat} (hk : k ≤ start.left)
    (ends : Peg.run unaided n p (start.skip k) ≠ .exhausted) :
    Peg.run (rules later #[]) m p (start.skip k) = Peg.run unaided n p (start.skip k) :=
  Peg.run_of_agrees unaided_plain ground_ranks (agrees_rules right) le ⟨k, hk, rfl⟩ ends

/-- A rule whose first character is not at a place starts with something else. -/
theorem exists_opening {c : Cursor} {α : Type} {r : Rule α} (x : Char) (ts : List Char)
    (opens : (body r).opening? = some (x :: ts)) (other : ∀ rest, c.rest ≠ x :: rest) :
    ∃ ts, (body r).opening? = some ts ∧ ¬ ts.isPrefixOf c.rest := by
  refine ⟨x :: ts, opens, fun starts => ?_⟩
  obtain ⟨rest, e⟩ := List.isPrefixOf_iff_prefix.1 starts
  exact other _ e.symm

/-- What is kept for a rule at a place is what a match comes to there, or the rule starts
with another bracket. -/
theorem outcome_bracketsAt {fuel : Nat} {later : Array Brackets} {c : Cursor} {α : Type}
    {r : Rule α} {o : Outcome α} (kept : (bracketsAt fuel later c).outcome? r = some o) :
    o = Peg.run (rules later #[]) fuel (body r) c ∨
      o = .fail ∧ ∃ ts, (body r).opening? = some ts ∧ ¬ ts.isPrefixOf c.rest := by
  unfold bracketsAt at kept
  cases r <;> simp only [Brackets.outcome?, Option.some.injEq, reduceCtorEq] at kept
  case block =>
    subst kept
    split
    · exact .inl rfl
    all_goals exact .inr ⟨rfl, exists_opening '\x7b' [] rfl (by simp_all)⟩
  case parens | arguments =>
    subst kept
    split
    case h_2 => exact .inl rfl
    all_goals exact .inr ⟨rfl, exists_opening '(' [] rfl (by simp_all)⟩
  case interpolation =>
    subst kept
    split
    case h_3 => exact .inl rfl
    all_goals exact .inr ⟨rfl, exists_opening '#' ['\x7b'] rfl (by simp_all)⟩

/-- What is found at a bracket is right. -/
theorem right_bracketsAt {fuel : Nat} {start : Cursor} (enough : (start.left + 1) * slack ≤ fuel)
    {later : Array Brackets} (right : Peg.AllFit start Right later) {k : Nat}
    (hk : k ≤ start.left) : Right (start.skip k) (bracketsAt fuel later (start.skip k)) := by
  intro α r o kept n ends
  rcases outcome_bracketsAt kept with rfl | ⟨rfl, ts, opens, other⟩
  · have full := run_body_ne_exhausted enough k r
    calc Peg.run unaided n (body r) (start.skip k)
        = Peg.run unaided fuel (body r) (start.skip k) := run_unaided_eq ends full
      _ = Peg.run (rules later #[]) fuel (body r) (start.skip k) :=
          (run_rules_eq right (Nat.le_refl fuel) hk full).symm
  · exact Peg.run_of_opening opens other ends

/-- Everything that the table knows is right. -/
theorem right_bracketTable {fuel : Nat} {start : Cursor}
    (enough : (start.left + 1) * slack ≤ fuel) :
    Peg.AllFit start Right (bracketTable fuel start) :=
  Peg.allFit_table fun _ _ hk right => right_bracketsAt enough right hk

end Grammar

/-- A match of a whole text with the table comes to what one without it comes to. -/
theorem Grammar.run_sheet_eq (file : String) (chars : List Char) :
    Peg.run (rules (bracketTable (fuelFor chars) (.start file chars)) #[]) (fuelFor chars)
        (.call Rule.sheet) (.start file chars) =
      Peg.run unaided (fuelFor chars) (.call Rule.sheet) (.start file chars) := by
  have enough : ((Cursor.start file chars).left + 1) * slack ≤ fuelFor chars := Nat.le_refl _
  have full : Peg.run unaided (fuelFor chars) (.call Rule.sheet) (.start file chars) ≠
      .exhausted := run_unaided_ne_exhausted rfl (by decide) enough
  have table := run_rules_eq (right_bracketTable enough) (Nat.le_refl _) (Nat.zero_le _)
    (by rwa [Cursor.skip_zero])
  rwa [Cursor.skip_zero] at table

/-- **A text is the style sheet that some match without a table reads.** -/
theorem Document.parse_of_run {file text : String} {n : Nat} {nodes : Built (List Node)}
    {next : Cursor} (h : Peg.run Grammar.unaided n (.call Rule.sheet)
      (.start file text.toList) = .ok nodes next) (whole : next.rest = []) :
    Document.parse file text = nodes.map fun children => .plain {} .root children := by
  have full : Peg.run Grammar.unaided (Grammar.fuelFor text.toList) (.call Rule.sheet)
      (.start file text.toList) ≠ .exhausted :=
    Grammar.run_unaided_ne_exhausted rfl (by decide) (Nat.le_refl _)
  have ends : Peg.run Grammar.unaided n (.call Rule.sheet) (.start file text.toList) ≠
      .exhausted := by simp [h]
  have matched := Grammar.run_sheet_eq file text.toList
  rw [Grammar.run_unaided_eq full ends, h] at matched
  unfold Document.parse
  simp only [matched, whole, List.isEmpty_nil, if_true]
  cases nodes with
  | error d => rfl
  | ok children => rfl

end Stylesheet
