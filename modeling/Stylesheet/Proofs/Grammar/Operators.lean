/-
# Operators between variables

`Expr.IsFormula` says that an expression is a tree of operators over variables, and
`Expr.render` writes one with as few brackets as the levels of its operators allow
(`Expr.level`): a left operand is in brackets if it is looser than its operator, and a right one
also if it is as loose.

What is written so spells the formula (`Grammar.Spells`), and the grammar reads it back: at
every level the rule of the level reads the first operand, and from there on takes operators of
the level from the left until a looser one, a closing bracket or the end of the text follows
(`Grammar.Spells.takes`).  So a formula is the expression that its text is
(`Expr.parse_render`).
-/

import Stylesheet.Proofs.Grammar.Attempts
import Stylesheet.Proofs.Grammar.Parts

namespace Stylesheet

/-- How tight an operator binds its operands, from the loosest at 0. -/
def BinaryOp.level : BinaryOp → Nat
  | or => 0
  | and => 1
  | eq | ne => 2
  | lt | gt | le | ge => 3
  | add | sub => 4
  | mul | div | mod | unknown _ => 5

/-- The operators before an operand that have a meaning. -/
def UnaryOp.all : List UnaryOp :=
  [not, minus, plus]

/-- How an operator is written before its operand. -/
def UnaryOp.lead : UnaryOp → List Char
  | not => "not ".toList
  | op => op.symbol.toList

namespace Expr

/-- Whether an expression is a tree of operators over variables that are words. -/
inductive IsFormula : Expr → Prop
  | word {w : List Char} (h : Grammar.IsWord w) : IsFormula (.variable (String.ofList w))
  | binary {l r : Expr} {op : BinaryOp} (known : op ∈ BinaryOp.all) (left : IsFormula l)
      (right : IsFormula r) : IsFormula (.binary l op r)
  | unary {e : Expr} {op : UnaryOp} (known : op ∈ UnaryOp.all) (h : IsFormula e) :
      IsFormula (.unary op e)

/-- How tight the outermost operator of an expression binds; nothing binds tighter than what
has no operator. -/
def level : Expr → Nat
  | .binary _ op _ => op.level
  | .unary .. => 6
  | _ => 7

/-- A text in brackets, if that is needed. -/
def enclose (needed : Prop) [Decidable needed] (text : List Char) : List Char :=
  if needed then '(' :: text ++ [')'] else text

/-- A formula as it is written, with the brackets that it needs. -/
def render : Expr → List Char
  | .variable name => '$' :: name.toList
  | .binary l op r =>
    enclose (l.level < op.level) l.render ++ (' ' :: (op.symbol.toList ++ ' ' ::
      enclose (r.level ≤ op.level) r.render))
  | .unary op e => op.lead ++ enclose (e.level < 7) e.render
  | _ => []

end Expr

namespace Grammar

variable {file : String} {k m : Nat} {ts us rest w : List Char} {e l r : Expr} {op : BinaryOp}
  {x : Char}

/-! ### Levels -/

/-- The rule of a level. -/
def levelRule : Nat → Rule Expr
  | 0 => .orExpr
  | 1 => .andExpr
  | 2 => .eqExpr
  | 3 => .relExpr
  | 4 => .addExpr
  | 5 => .mulExpr
  | 6 => .unary
  | _ => .primary

/-- An operator of a level and its right operand. -/
def tail : Nat → Peg Rule (BinaryOp × Expr)
  | 0 => (fun e => (BinaryOp.or, e)) <$> (on .gap *> keyword "or" *> on .gap *> on .andExpr)
  | 1 => (fun e => (BinaryOp.and, e)) <$> (on .gap *> keyword "and" *> on .gap *> on .eqExpr)
  | 2 => Prod.mk <$> (on .gap *> on .eqOp <* on .gap) <*> on .relExpr
  | 3 => Prod.mk <$> (on .gap *> on .relOp <* on .gap) <*> on .addExpr
  | 4 => on .addTail
  | _ => Prod.mk <$> (on .gap *> on .mulOp <* on .gap) <*> on .unary

/-- Two operands joined by an operator of a level. -/
def join : Nat → Expr → BinaryOp → Expr → Expr
  | 5 => Expr.product
  | _ => .binary

/-- The operators of a level, applied from the left. -/
def joinAll (k : Nat) (first : Expr) (others : List (BinaryOp × Expr)) : Expr :=
  others.foldl (fun left (op, right) => join k left op right) first

/-- An expression of a level is one of the next, and operators of the level with their operands. -/
theorem body_levelRule (h : k ≤ 5) :
    body (levelRule k) = (joinAll k <$> on (levelRule (k + 1)) <*> .star (tail k)) := by
  match k with
  | 0 | 1 | 2 | 3 | 4 | 5 => rfl
  | k + 6 => omega

/-- A text of an expression at a level: the operators that are in no brackets bind as tight as
the level at least. -/
inductive Spells : Nat → List Char → Expr → Prop
  | word {w : List Char} (h : IsWord w) : Spells 7 ('$' :: w) (.variable (String.ofList w))
  | brackets {ts : List Char} {e : Expr} (h : Spells 0 ts e) : Spells 7 ('(' :: ts ++ [')']) e
  | unary {op : UnaryOp} {ts : List Char} {e : Expr} (known : op ∈ UnaryOp.all)
      (h : Spells 7 ts e) : Spells 6 (op.lead ++ ts) (.unary op e)
  | binary {op : BinaryOp} {ts us : List Char} {l r : Expr} (known : op ∈ BinaryOp.all)
      (left : Spells op.level ts l) (right : Spells (op.level + 1) us r) :
      Spells op.level (ts ++ (' ' :: (op.symbol.toList ++ ' ' :: us))) (.binary l op r)
  | looser {k : Nat} {ts : List Char} {e : Expr} (h : Spells (k + 1) ts e) : Spells k ts e

namespace Spells

/-- A text of an expression at a level is one at every looser level. -/
theorem mono (h : Spells m ts e) (le : k ≤ m) : Spells k ts e := by
  induction m with
  | zero => exact Nat.le_zero.1 le ▸ h
  | succ m ih =>
    rcases Nat.le_succ_iff.1 le with less | rfl
    · exact ih h.looser less
    · exact h

/-- In brackets, or not if they are not needed. -/
theorem enclose (h : Spells m ts e) (le : k ≤ 7) (needed : Prop) [Decidable needed]
    (otherwise : ¬needed → k ≤ m) : Spells k (Expr.enclose needed ts) e := by
  unfold Expr.enclose
  split
  · exact (brackets (h.mono (Nat.zero_le m))).mono le
  · exact h.mono (otherwise (by assumption))

end Spells

/-- The operators are on six levels. -/
theorem level_le_of_mem (known : op ∈ BinaryOp.all) : op.level ≤ 5 := by
  cases op <;> simp [BinaryOp.level]

/-- **A formula is spelled by what is written for it.** -/
theorem spells_render (h : e.IsFormula) : Spells e.level e.render e := by
  induction h with
  | word hw =>
    rw [Expr.render, String.toList_ofList]
    exact .word hw
  | binary known left right ihl ihr =>
    have level := level_le_of_mem known
    exact .binary known (ihl.enclose (by omega) _ (by omega)) (ihr.enclose (by omega) _ (by omega))
  | unary known h ih =>
    exact .unary known (ih.enclose (Nat.le_refl 7) _ (by omega))

/-! ### What follows an expression -/

/-- What follows an expression of a level: nothing, a closing bracket, or a looser operator. -/
inductive Follows (k : Nat) : List Char → Prop
  | nil : Follows k []
  | bracket (rest : List Char) : Follows k (')' :: rest)
  | operator {op : BinaryOp} (known : op ∈ BinaryOp.all) (looser : op.level < k)
      (rest : List Char) : Follows k (' ' :: (op.symbol.toList ++ ' ' :: rest))

/-- What follows an expression follows every expression that is tighter. -/
theorem Follows.mono (h : Follows k rest) (le : k ≤ m) : Follows m rest := by
  cases h with
  | nil => exact .nil
  | bracket rest => exact .bracket rest
  | operator known looser rest => exact .operator known (by omega) rest

/-- A name at the end of an expression goes no further. -/
theorem Follows.stops_isPart (h : Follows k rest) : Stops Name.isPart rest := by
  cases h <;> first | exact stops_nil _ | exact stops_cons.2 (by decide)

/-! ### Operators -/

/-- The first of some texts that is there is taken. -/
theorem takes_oneOf {first t : String} {others : List String}
    (found : (first :: others).find? (fun s => s.toList.isPrefixOf (t.toList ++ rest)) = some t) :
    Takes file (.oneOf first others) t.toList rest (· = t) := by
  induction others generalizing first with
  | nil =>
    obtain rfl : t = first := List.mem_singleton.1 (List.mem_of_find?_eq_some found)
    exact (Takes.lit t rest).map_eq
  | cons s others ih =>
    rw [List.find?_cons] at found
    split at found
    · cases found
      exact .alt (Takes.lit t rest).map_eq
    · rename_i other
      refine .alt_else (.map fun c hc => .lit_fail fun starts => ?_) (ih found)
      rw [hc, ← List.isPrefixOf_iff_prefix, other] at starts
      cases starts

/-- The rule for the operators of a level that are no words. -/
def operatorRule : Nat → Rule BinaryOp
  | 2 => .eqOp
  | 3 => .relOp
  | 4 => .addOp
  | _ => .mulOp

/-- An operator that is no word is read by the rule of its level. -/
theorem takes_operator (known : op ∈ BinaryOp.all) (noWord : 2 ≤ op.level) (rest : List Char) :
    Takes file (on (operatorRule op.level)) op.symbol.toList (' ' :: rest) (· = op) := by
  refine .call ?_
  cases op with
  | or | and => simp [BinaryOp.level] at noWord
  | unknown => simp [BinaryOp.all] at known
  | eq | ne | lt | gt | le | ge | add | sub | mul | div | mod =>
    exact (takes_oneOf (by simp [BinaryOp.symbol])).map_eq

/-- A single space. -/
theorem takes_space (stops : Stops Text.isSpace rest) :
    Takes file (on .space) [' '] rest (· = ()) := by
  have first : Takes file (.char Text.isSpace) [' '] ([] ++ rest) (· = ' ') :=
    .char (by decide) rest
  have others : Takes file (.span Text.isSpace) [] rest (· = []) := .span (by simp) stops
  exact .call (first.seq_eq others).map_eq.map_eq

/-- The space before an operator is no part of it. -/
theorem fails_gap_then {β : Type} {p : Peg Rule β} (stops : Stops Text.isSpace ts)
    (h : Fails p ts) : Fails (.seq (on .gap) p) (' ' :: ts) :=
  .after (· = ()) (fun _ => takes_gap (List.forall_mem_singleton.2 (by decide)) stops) h

/-- An operator does not start with space. -/
theorem stops_isSpace_symbol (known : op ∈ BinaryOp.all) (rest : List Char) :
    Stops Text.isSpace (op.symbol.toList ++ rest) := by
  cases op with
  | unknown => simp [BinaryOp.all] at known
  | _ => exact stops_cons.2 (by decide)

section

variable (known : op ∈ BinaryOp.all) (stops : Stops Text.isSpace (us ++ rest))
  (right : Takes file (on (levelRule (op.level + 1))) us rest (· = r))

include known stops right

/-- An operator that is a word, and its right operand. -/
theorem takes_word_tail (f : Expr → BinaryOp × Expr) :
    Takes file (f <$> (on .gap *> keyword op.symbol *> on .gap *> on (levelRule (op.level + 1))))
      (' ' :: (op.symbol.toList ++ ' ' :: us)) rest (· = f r) := by
  have before : Takes file (on .gap) [' '] (op.symbol.toList ++ ' ' :: (us ++ rest)) (· = ()) :=
    takes_gap (by decide) (stops_isSpace_symbol known _)
  have word : Takes file (keyword op.symbol) op.symbol.toList ([' '] ++ (us ++ rest)) (· = ()) :=
    takes_keyword op.symbol (stops_cons.2 (by decide))
  have after : Takes file (on .gap) [' '] (us ++ rest) (· = ()) := takes_gap (by decide) stops
  have whole := (((before.right word).right after).right right).map_eq (f := f)
  simpa only [List.append_assoc, List.cons_append, List.nil_append] using whole

/-- An operator that is no word, and its right operand. -/
theorem takes_symbol_tail (noWord : 2 ≤ op.level) {between : Rule Unit}
    (takes_one : ∀ {rest}, Stops Text.isSpace rest →
      Takes file (on between) [' '] rest (· = ())) :
    Takes file (Prod.mk <$> (on between *> on (operatorRule op.level) <* on between) <*>
        on (levelRule (op.level + 1)))
      (' ' :: (op.symbol.toList ++ ' ' :: us)) rest (· = (op, r)) := by
  have before : Takes file (on between) [' '] (op.symbol.toList ++ ' ' :: (us ++ rest)) (· = ()) :=
    takes_one (stops_isSpace_symbol known _)
  have symbol : Takes file (on (operatorRule op.level)) op.symbol.toList ([' '] ++ (us ++ rest))
      (· = op) := takes_operator known noWord _
  have after : Takes file (on between) [' '] (us ++ rest) (· = ()) := takes_one stops
  have pair := ((before.right symbol).left after).map_eq (f := Prod.mk (β := Expr))
  simpa only [List.append_assoc, List.cons_append, List.nil_append] using pair.app_eq right

/-- **An operator and its right operand**, with single spaces around the operator. -/
theorem takes_tail :
    Takes file (tail op.level) (' ' :: (op.symbol.toList ++ ' ' :: us)) rest (· = (op, r)) := by
  cases op with
  | or | and => exact takes_word_tail known stops right _
  | unknown => simp [BinaryOp.all] at known
  | add | sub =>
    exact .call (.alt (takes_symbol_tail known stops right (by decide) takes_space))
  | eq | ne | lt | gt | le | ge | mul | div | mod =>
    exact takes_symbol_tail known stops right (by decide) (takes_gap (by decide))

end

/-- No operator of a level follows an expression of the level. -/
theorem fails_tail (h : Follows k rest) (le : k ≤ 5) (some : rest ≠ []) : Fails (tail k) rest := by
  cases h with
  | nil => exact absurd rfl some
  | bracket rest =>
    have closed : ∀ k ≤ 5, forecast [')'] 200 (tail k) = .fails := by decide
    exact .of_forecast [')'] 200 (closed k le) rest
  | operator known looser rest =>
    rename_i op
    have stops := stops_isSpace_symbol known (' ' :: rest)
    have other {β : Type} {p : Peg Rule β}
        (h : ∀ op ∈ BinaryOp.all, op.level < k →
          forecast (op.symbol.toList ++ [' ']) 200 p = .fails) :
        Fails p (op.symbol.toList ++ ' ' :: rest) := by
      have fails := Fails.of_forecast (op.symbol.toList ++ [' ']) 200 (h op known looser) rest
      simpa only [List.append_assoc, List.singleton_append] using fails
    match k with
    | 0 => cases looser
    | 1 => exact .map (.map (.seq (.map (.seq (.map (fails_gap_then stops (other (by decide))))))))
    | 2 | 3 | 5 =>
      exact .map (.seq (.map (.map (.seq (.map (fails_gap_then stops (other (by decide))))))))
    | 4 =>
      have spaced :
          Fails (.seq (on .space) (on .addOp)) (' ' :: (op.symbol.toList ++ ' ' :: rest)) :=
        .after (· = ()) (fun _ => takes_space stops) (other (by decide))
      exact .call (.alt (.map (.seq (.map (.map (.seq (.map spaced))))))
        (.of_forecast [' '] 200 (by decide) _))
    | k + 6 => omega

/-- An expression of a level ends where none of its operators follows. -/
theorem takes_no_tail (h : Follows k rest) (le : k ≤ 5) :
    Takes file (.star (tail k)) [] rest (· = []) := by
  cases rest with
  | nil => exact .star_eof
  | cons x rest => exact .star_end (fails_tail h le (List.cons_ne_nil x rest))

/-! ### Operands -/

namespace Spells

/-- Nothing is tighter than an operand. -/
theorem level_le (h : Spells k ts e) : k ≤ 7 := by
  induction h with
  | word | brackets => exact Nat.le_refl 7
  | unary => decide
  | binary known => exact Nat.le_trans (level_le_of_mem known) (by decide)
  | looser h ih => omega

/-- No formula is a number. -/
theorem ne_number (h : Spells k ts e) (x : Number.Numeric) (u : String) :
    e ≠ .literal (.number x u) := by
  induction h with
  | looser h ih => exact ih
  | _ => simp_all

/-- What the text of an operand starts with. -/
theorem exists_cons_of_operand (h : Spells 7 ts e) : ∃ x cs, ts = x :: cs ∧ x ∈ ['$', '('] := by
  generalize tightest : 7 = k at h
  cases h with
  | word => exact ⟨'$', _, rfl, by simp⟩
  | brackets => exact ⟨'(', _, rfl, by simp⟩
  | unary => cases tightest
  | binary known =>
    have := level_le_of_mem known
    omega
  | looser h =>
    have := h.level_le
    omega

/-- What the text of an expression starts with. -/
theorem exists_cons (h : Spells k ts e) :
    ∃ x cs, ts = x :: cs ∧ x ∈ ['$', '(', 'n', '-', '+'] := by
  induction h with
  | word => exact ⟨'$', _, rfl, by simp⟩
  | brackets => exact ⟨'(', _, rfl, by simp⟩
  | @unary op _ _ known =>
    cases op with
    | not => exact ⟨'n', _, rfl, by simp⟩
    | minus => exact ⟨'-', _, rfl, by simp⟩
    | plus => exact ⟨'+', _, rfl, by simp⟩
    | unknown => simp [UnaryOp.all] at known
  | binary _ _ _ ihl =>
    obtain ⟨x, cs, rfl, hx⟩ := ihl
    exact ⟨x, _, rfl, hx⟩
  | looser _ ih => exact ih

/-- An expression does not start with space. -/
theorem stops_isSpace (h : Spells k ts e) (rest : List Char) :
    Stops Text.isSpace (ts ++ rest) := by
  obtain ⟨x, cs, rfl, hx⟩ := h.exists_cons
  have black : ∀ x ∈ ['$', '(', 'n', '-', '+'], Text.isSpace x = false := by decide
  exact stops_cons.2 (black x hx)

/-- What the text of an expression ends with. -/
theorem exists_last (h : Spells k ts e) :
    ∃ y ds, ts.reverse = y :: ds ∧ y ∈ ')' :: letters := by
  induction h with
  | @word w hw =>
    obtain ⟨y, ds, e⟩ := List.exists_cons_of_ne_nil (List.reverse_ne_nil_iff.2 hw.nonempty)
    have mem : y ∈ w := List.mem_reverse.1 (e ▸ List.mem_cons_self)
    exact ⟨y, _, by rw [List.reverse_cons, e, List.cons_append],
      List.mem_cons_of_mem _ (mem_letters_of_lower (hw.lower y mem))⟩
  | brackets => exact ⟨')', _, List.reverse_concat .., List.mem_cons_self⟩
  | unary _ _ ih =>
    obtain ⟨y, ds, e, hy⟩ := ih
    exact ⟨y, _, by rw [List.reverse_append, e, List.cons_append], hy⟩
  | binary _ _ _ _ ihr =>
    obtain ⟨y, ds, e, hy⟩ := ihr
    exact ⟨y, _, by
      simp only [List.reverse_append, List.reverse_cons, e, List.cons_append]
      rfl, hy⟩
  | looser _ ih => exact ih

end Spells

/-- A name after a dollar sign. -/
theorem takes_variable (hw : IsWord w) (stops : Stops Name.isPart rest) :
    Takes file (on .primary) ('$' :: w) rest (· = .variable (String.ofList w)) := by
  have name : Takes file (on .variableUse) (['$'] ++ w) rest (· = .variable (String.ofList w)) :=
    .call ((Takes.lit "$" _).right (takes_name hw stops)).map_eq
  exact .call (takes_choice 3 ['$'] (by decide) (List.prefix_append ['$'] _) name.alt)

/-- An expression without commas and spaces between its parts. -/
theorem takes_commaList (h : Takes file (on .orExpr) ts rest (· = e))
    (ends : Follows 0 rest) : Takes file (on .commaList) ts rest (· = e) := by
  have none {p : Peg Rule Expr} (out : forecast [')'] 200 p = .fails) :
      Takes file (.star p) [] rest (· = []) := by
    cases ends with
    | nil => exact .star_eof
    | bracket rest => exact .star_end (.of_forecast [')'] 200 out rest)
    | operator _ looser => cases looser
  have spaced : Takes file (on .spaceList) ts rest (· = e) :=
    .call (h.map_eq.app_nil (none (by decide)))
  exact .call (spaced.map_eq.app_nil (none (by decide)))

/-- An expression in brackets. -/
theorem takes_brackets (spells : Spells k ts e)
    (h : Takes file (on .orExpr) ts (')' :: rest) (· = e)) :
    Takes file (on .primary) ('(' :: ts ++ [')']) rest (· = e) := by
  have lead : Takes file (on .gap) [] (ts ++ ')' :: rest) (· = ()) :=
    takes_gap (by simp) (spells.stops_isSpace _)
  have close : Takes file (on .gap) [] ([')'] ++ rest) (· = ()) :=
    takes_gap (by simp) (stops_cons.2 (by decide))
  have inner : Takes file (on .commaList) ts (')' :: rest) (· = e) :=
    takes_commaList h (.bracket rest)
  have whole : Takes file (on .parens) ('(' :: ([] ++ ts ++ [] ++ [')'])) rest (· = e) :=
    .call (((((Takes.lit "(" _).right lead).right inner).left close).left (.lit ")" rest))
  rw [List.nil_append, List.append_nil] at whole
  exact .call (takes_choice 0 ['('] rfl (List.prefix_append ['('] _) whole.alt)

/-- Nothing is tried before an operand that is no operator's. -/
theorem takes_operand (spells : Spells 7 ts e) (h : Takes file (on .primary) ts rest (· = e)) :
    Takes file (on .unary) ts rest (· = e) := by
  obtain ⟨x, cs, rfl, hx⟩ := spells.exists_cons_of_operand
  exact .call (takes_choice_of_mem 1 hx (by decide) rfl h.alt)

/-- A hyphen before what starts no name. -/
theorem fails_hyphenName {y : Char} (hy : Name.isStart y = false) :
    Fails hyphenName ('-' :: y :: rest) := by
  have hyphen (file : String) : Takes file (.opt (.char (· == '-')) : Peg Rule _) ['-'] (y :: rest)
      fun _ => True :=
    (Takes.opt_some (by simp) (.char (by decide) _)).mono fun _ _ => trivial
  have noStart : Fails (.char Name.isStart : Peg Rule _) (y :: rest) := .char (stops_cons.2 hy)
  exact .map (.seq (.map (.after (fun _ => True)
    (fun file => .map ((hyphen file).mono fun _ _ => trivial)) noStart)))

/-- A function with an argument of its own starts with its name. -/
theorem fails_rawFunction_of_not_prefix
    (h : ∀ t ∈ ["url", "calc", "-webkit-calc", "-moz-calc"], ¬t.toList <+: ts) :
    Fails (on .rawFunction) ts := by
  have none (t : String) (ht : t ∈ ["url", "calc", "-webkit-calc", "-moz-calc"]) :
      Fails (.map (fun _ => t) (.lit t) : Peg Rule String) ts := .map (.lit (h t ht))
  exact .call (.map (.seq (.map (.alt (none _ (by simp)) (.alt (none _ (by simp))
    (.alt (none _ (by simp)) (none _ (by simp))))))))

/-- A sign before what starts no name is no operand. -/
theorem fails_primary {y : Char} (hx : x ∈ ['-', '+']) (noStart : Name.isStart y = false)
    (noHole : Fails (on .interpolatedIdent) ('-' :: y :: rest)) :
    Fails (on .primary) (x :: y :: rest) := by
  simp only [List.mem_cons, List.not_mem_nil, or_false] at hx
  rcases hx with rfl | rfl
  · have out {p : Peg Rule Expr} (h : forecast ['-'] 200 p = .fails) :
        Fails p ('-' :: y :: rest) := .of_forecast ['-'] 200 h _
    have function : Fails (on .rawFunction) ('-' :: y :: rest) := by
      refine fails_rawFunction_of_not_prefix fun t ht starts => ?_
      simp only [List.mem_cons, List.not_mem_nil, or_false] at ht
      rcases ht with rfl | rfl | rfl | rfl
      · exact absurd (List.cons_prefix_cons.1 starts).1 (by decide)
      · exact absurd (List.cons_prefix_cons.1 starts).1 (by decide)
      all_goals
        obtain ⟨rfl, -⟩ := List.cons_prefix_cons.1 (List.cons_prefix_cons.1 starts).2
        exact absurd noStart (by decide)
    have name : Fails hyphenName ('-' :: y :: rest) := fails_hyphenName noStart
    have call : Fails (on .call) ('-' :: y :: rest) := .call (.map (.seq (.map (.call name))))
    have word : Fails (on .ident) ('-' :: y :: rest) := .call (.map name)
    exact .call (.alt (out (by decide)) (.alt function (.alt call (.alt (out (by decide))
      (.alt (out (by decide)) (.alt (out (by decide)) (.alt noHole
        (.alt (out (by decide)) (.alt (out (by decide)) word)))))))))
  · exact .of_forecast ['+'] 200 (by decide) _

/-- A sign and its operand. -/
theorem takes_sign {op : UnaryOp} (hx : x ∈ ['-', '+'])
    (sign : ∀ rest, Takes file (on .sign) [x] rest (· = op))
    (noPrimary : Fails (on .primary) (x :: (ts ++ rest)))
    (h : Takes file (on .unary) ts rest (· = e)) :
    Takes file (on .unary) (x :: ts) rest (· = .unary op e) :=
  .call (.alt_else (.of_mem hx (by decide)) (.alt_else noPrimary ((sign _).map_eq.app_eq h)))

/-- A minus is a sign. -/
theorem takes_minus (rest : List Char) : Takes file (on .sign) ['-'] rest (· = .minus) :=
  .call (takes_oneOf (t := "-") (by simp)).map_eq

/-- A plus is a sign. -/
theorem takes_plus (rest : List Char) : Takes file (on .sign) ['+'] rest (· = .plus) :=
  .call (takes_oneOf (t := "+") (by simp)).map_eq

/-- A sign before an operand is no operand. -/
theorem Spells.fails_primary (h : Spells 7 ts e) (hx : x ∈ ['-', '+']) (rest : List Char) :
    Fails (on .primary) (x :: (ts ++ rest)) := by
  obtain ⟨y, cs, rfl, hy⟩ := h.exists_cons_of_operand
  have noName : ∀ y ∈ ['$', '('], Name.isStart y = false ∧ Name.isPart y = false ∧ y ≠ '#' := by
    decide
  obtain ⟨noStart, noPart, noHash⟩ := noName y hy
  have noHole : Fails (on .interpolatedIdent) (['-'] ++ y :: (cs ++ rest)) :=
    fails_interpolatedIdent_of_run (by simp) (by decide) noPart noHash
  exact Grammar.fails_primary hx noStart noHole

/-- `not` and its operand. -/
theorem takes_not (spells : Spells 7 ts e) (h : Takes file (on .unary) ts rest (· = e)) :
    Takes file (on .unary) (UnaryOp.not.lead ++ ts) rest (· = .unary .not e) := by
  have word : Takes file (keyword "not") "not".toList ([' '] ++ (ts ++ rest)) (· = ()) :=
    takes_keyword "not" (stops_cons.2 (by decide))
  have space : Takes file (on .gap) [' '] (ts ++ rest) (· = ()) :=
    takes_gap (by decide) (spells.stops_isSpace rest)
  have operator : Takes file (on .notOp) ("not".toList ++ [' ']) (ts ++ rest) (· = ()) :=
    .call (word.left space)
  exact .call (.alt (operator.right h).map_eq)

/-- An operation on one operand is read by the rule for all of them. -/
theorem takes_operation {op : UnaryOp} (known : op ∈ UnaryOp.all) (spells : Spells 7 ts e)
    (h : Takes file (on .unary) ts rest (· = e)) :
    Takes file (on .unary) (op.lead ++ ts) rest (· = .unary op e) := by
  cases op with
  | not => exact takes_not spells h
  | minus =>
    exact takes_sign (x := '-') (by simp) takes_minus (spells.fails_primary (by simp) rest) h
  | plus =>
    exact takes_sign (x := '+') (by simp) takes_plus (spells.fails_primary (by simp) rest) h
  | unknown => simp [UnaryOp.all] at known

/-! ### Formulas -/

/-- Only number literals are joined to anything but an operation. -/
theorem join_eq_binary (h : ∀ x u, l ≠ .literal (.number x u)) (k : Nat) (op : BinaryOp)
    (r : Expr) : join k l op r = .binary l op r := by
  unfold join
  split
  · unfold Expr.product
    split
    · exact absurd rfl (h _ _)
    · rfl
  · rfl

/-- The first operator of a level takes the expression before it as its left operand. -/
theorem joinAll_cons (h : ∀ x u, l ≠ .literal (.number x u)) (k : Nat) (op : BinaryOp) (r : Expr)
    (others : List (BinaryOp × Expr)) :
    joinAll k l ((op, r) :: others) = joinAll k (.binary l op r) others :=
  congrArg (others.foldl _) (join_eq_binary h k op r)

/-- Whether the rule of a level reads a text as an expression, whatever operators of the level
are joined to it from the right. -/
def Joins (k : Nat) (ts : List Char) (e : Expr) : Prop :=
  ∀ (file : String) (us rest : List Char) (others : List (BinaryOp × Expr)),
    Follows (k + 1) (us ++ rest) → Takes file (.star (tail k)) us rest (· = others) →
      Takes file (on (levelRule k)) (ts ++ us) rest (· = joinAll k e others)

/-- Whether the rule of a level reads a text as an expression. -/
def Accepts (k : Nat) (ts : List Char) (e : Expr) : Prop :=
  ∀ (file : String) (rest : List Char), Follows k rest →
    Takes file (on (levelRule k)) ts rest (· = e)

/-- Nothing is joined to it. -/
theorem Joins.accepts (h : Joins k ts e) (le : k ≤ 5) : Accepts k ts e := by
  intro file rest follows
  have alone := h file [] rest [] (follows.mono (Nat.le_succ k)) (takes_no_tail follows le)
  rwa [List.append_nil] at alone

/-- What is read at the next level is the first operand. -/
theorem Accepts.joins (h : Accepts (k + 1) ts e) (le : k ≤ 5) : Joins k ts e := by
  intro file us rest others follows more
  refine .call ?_
  rw [body_levelRule le]
  exact (h file (us ++ rest) follows).map_eq.app_eq more

/-- A left operand to which an operator and its right operand are joined. -/
theorem Joins.binary (known : op ∈ BinaryOp.all) (left : Joins op.level ts l)
    (some : ∀ x u, l ≠ .literal (.number x u)) (right : Accepts (op.level + 1) us r)
    (black : ∀ rest, Stops Text.isSpace (us ++ rest)) :
    Joins op.level (ts ++ (' ' :: (op.symbol.toList ++ ' ' :: us))) (.binary l op r) := by
  intro file vs rest others follows more
  have operand : Takes file (tail op.level) (' ' :: (op.symbol.toList ++ ' ' :: us)) (vs ++ rest)
      (· = (op, r)) := takes_tail known (black _) (right file (vs ++ rest) follows)
  have operands : Takes file (.star (tail op.level))
      (' ' :: (op.symbol.toList ++ ' ' :: us) ++ vs) rest (· = (op, r) :: others) := by
    refine (Takes.star_more (by simp) operand more).mono ?_
    rintro _ ⟨_, _, rfl, rfl, rfl⟩
    rfl
  have next := Follows.operator known (Nat.lt_succ_self op.level) (us ++ (vs ++ rest))
  rw [List.append_assoc, ← joinAll_cons some]
  exact left file _ rest _ (by simpa only [List.cons_append, List.append_assoc] using next) operands

/-- **The rule of a level reads what is spelled at the level.** -/
theorem Spells.accepts (h : Spells k ts e) : Accepts k ts e ∧ (k ≤ 5 → Joins k ts e) := by
  induction h with
  | word hw =>
    exact ⟨fun file rest follows => takes_variable hw follows.stops_isPart,
      fun le => absurd le (by decide)⟩
  | brackets h ih =>
    exact ⟨fun file rest follows => takes_brackets h (ih.1 file _ (.bracket rest)),
      fun le => absurd le (by decide)⟩
  | unary known h ih =>
    refine ⟨fun file rest follows => ?_, fun le => absurd le (by decide)⟩
    exact takes_operation known h (takes_operand h (ih.1 file rest (follows.mono (by decide))))
  | binary known left right ihl ihr =>
    have le := level_le_of_mem known
    have joins := (ihl.2 le).binary known left.ne_number ihr.1 right.stops_isSpace
    exact ⟨joins.accepts le, fun _ => joins⟩
  | @looser k ts e h ih =>
    rcases Nat.lt_or_ge 5 k with tight | le
    · obtain rfl : k = 6 := by
        have := h.level_le
        omega
      exact ⟨fun file rest follows => takes_operand h (ih.1 file rest (follows.mono (by decide))),
        fun le => absurd le (by decide)⟩
    · have joins := ih.1.joins le
      exact ⟨joins.accepts le, fun _ => joins⟩

end Grammar

/-- **A formula is the expression that its text is.** -/
theorem Expr.parse_render {e : Expr} (h : e.IsFormula) :
    Expr.parse (String.ofList e.render) = .ok e := by
  have spells : Grammar.Spells 0 e.render e := (Grammar.spells_render h).mono (Nat.zero_le _)
  have trimmed : Text.trimChars (String.ofList e.render).toList = e.render := by
    rw [String.toList_ofList]
    obtain ⟨x, cs, first, hx⟩ := spells.exists_cons
    obtain ⟨y, ds, last, hy⟩ := spells.exists_last
    have noBlank : ∀ x ∈ ['$', '(', 'n', '-', '+'] ++ ')' :: Grammar.letters,
        Text.isBlank x = false := by decide
    exact Text.trimChars_append (g := []) (by simp [Text.Blanks]) first
      (noBlank x (List.mem_append_left _ hx)) last (noBlank y (List.mem_append_right _ hy))
  obtain ⟨_, rfl, given⟩ := Grammar.takes_commaList (spells.accepts.1 Expr.fileName [] .nil) .nil
    (.start Expr.fileName e.render) rfl (List.append_nil _).symm
  exact Expr.parse_of_gives (trimmed.symm ▸ given) (by simp [Cursor.start])

/-- With an operand on either side that needs brackets, and a sign before a sum. -/
theorem Expr.parse_render_mixed :
    Expr.parse "$a - ($b - $c) * -($a + $b) < not $c" =
      .ok (.binary
        (.binary (.variable "a") .sub (.binary (.binary (.variable "b") .sub (.variable "c")) .mul
          (.unary .minus (.binary (.variable "a") .add (.variable "b")))))
        .lt (.unary .not (.variable "c"))) := by
  have name (x : Char) (h : x.isLower = true) : IsFormula (.variable (String.ofList [x])) :=
    .word ⟨by simp, by simpa using h⟩
  have a := name 'a' rfl
  have b := name 'b' rfl
  have c := name 'c' rfl
  have product : IsFormula (.binary (.binary (.variable "b") .sub (.variable "c")) .mul
      (.unary .minus (.binary (.variable "a") .add (.variable "b")))) :=
    .binary (by simp [BinaryOp.all]) (.binary (by simp [BinaryOp.all]) b c)
      (.unary (by simp [UnaryOp.all]) (.binary (by simp [BinaryOp.all]) a b))
  have difference : IsFormula (.binary (.variable "a") .sub _) :=
    .binary (by simp [BinaryOp.all]) a product
  have whole : IsFormula (.binary _ .lt (.unary .not (.variable "c"))) :=
    .binary (by simp [BinaryOp.all]) difference (.unary (by simp [UnaryOp.all]) c)
  exact (congrArg Expr.parse (by decide +kernel)).trans (Expr.parse_render whole)

end Stylesheet
