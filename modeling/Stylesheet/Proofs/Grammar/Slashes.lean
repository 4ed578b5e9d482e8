/-
# Numbers with slashes between them

A number literal is made of digits, perhaps with decimals and a unit (`NumberLiteral`), and
there may be a sign before it.  Literals with slashes between them, with any space around the
slashes, read as one product (`Grammar.takes_slashes`).  If the first two have no sign, what
stands before the third is the text of the two, and no number is divided
(`SlashChain.expr`).
-/

import Stylesheet.Proofs.Grammar.Operators
import Stylesheet.Proofs.Grammar.Simple

namespace Stylesheet

open Number

/-- A number literal: digits, some of them perhaps after a full stop, and a unit. -/
structure NumberLiteral where
  /-- The digits before the full stop. -/
  whole : List Char
  /-- The digits after the full stop, which is not written if there are none. -/
  decimals : List Char
  /-- The unit. -/
  unit : List Char
  whole_digits : ∀ x ∈ whole, Text.isDigit x = true
  decimals_digits : ∀ x ∈ decimals, Text.isDigit x = true
  nonempty : whole ≠ [] ∨ decimals ≠ []
  unit_letters : unit = ['%'] ∨ ∀ x ∈ unit, Grammar.isLetter x = true

namespace NumberLiteral

/-- The digits as they are written. -/
def digits (l : NumberLiteral) : List Char :=
  l.whole ++ if l.decimals = [] then [] else '.' :: l.decimals

/-- The literal as it is written. -/
def text (l : NumberLiteral) : List Char :=
  l.digits ++ l.unit

/-- The number. -/
def amount (l : NumberLiteral) : Binary64 :=
  .ofDecimal (Text.numberOf (l.whole ++ l.decimals)) l.decimals.length

/-- The value of the literal. -/
def value (l : NumberLiteral) : Value :=
  .number (.real l.amount) (String.ofList l.unit)

/-- The literal in CSS. -/
def css (l : NumberLiteral) : String :=
  l.amount.text ++ String.ofList l.unit

end NumberLiteral

/-- A number literal that may have a sign. -/
structure SignedLiteral where
  /-- The sign: whether it is a minus, if there is one. -/
  sign : Option Bool
  /-- The literal. -/
  literal : NumberLiteral

namespace SignedLiteral

/-- The literal with its sign as it is written. -/
def text (l : SignedLiteral) : List Char :=
  match l.sign with
  | none => l.literal.text
  | some minus => (if minus then '-' else '+') :: l.literal.text

/-- The literal with its sign as an expression. -/
def expr (l : SignedLiteral) : Expr :=
  match l.sign with
  | none => .literal l.literal.value
  | some minus => .unary (if minus then .minus else .plus) (.literal l.literal.value)

/-- The number with its sign. -/
def amount (l : SignedLiteral) : Binary64 :=
  if l.sign = some true then l.literal.amount.neg else l.literal.amount

/-- The value of the literal with its sign. -/
def value (l : SignedLiteral) : Value :=
  .number (.real l.amount) (String.ofList l.literal.unit)

/-- The literal with its sign in CSS. -/
def css (l : SignedLiteral) : String :=
  l.amount.text ++ String.ofList l.literal.unit

end SignedLiteral

/-- A slash with the space around it. -/
structure Slash where
  /-- The space before it. -/
  before : List Char
  /-- The space after it. -/
  after : List Char
  before_gap : Simple.IsGap before
  after_gap : Simple.IsGap after

/-- A slash as it is written. -/
def Slash.text (s : Slash) : List Char :=
  s.before ++ '/' :: s.after

/-- Number literals with slashes between them, the first two of which have no sign. -/
structure SlashChain where
  /-- The first literal. -/
  first : NumberLiteral
  /-- The slash after it. -/
  slash : Slash
  /-- The second literal. -/
  second : NumberLiteral
  /-- The other literals, each with the slash before it. -/
  others : List (Slash × SignedLiteral)

namespace SlashChain

/-- The literals as they are written. -/
def text (c : SlashChain) : List Char :=
  c.first.text ++ (c.slash.text ++ c.second.text ++
    c.others.flatMap fun (s, l) => s.text ++ l.text)

/-- What the literals read as: a text is divided by the third and by those after it. -/
def expr (c : SlashChain) : Expr :=
  c.others.foldl (fun left (_, l) => .binary left .div l.expr)
    (.literal (.word (c.first.css ++ "/" ++ c.second.css)))

/-- The literals in CSS. -/
def css (c : SlashChain) : String :=
  "/".intercalate (c.first.css :: c.second.css :: c.others.map fun (_, l) => l.css)

end SlashChain

namespace Grammar

variable {file : String} {ts rest : List Char} {x : Char}

/-! ### Characters -/

/-- All spaces. -/
def spaces : List Char :=
  ([9, 10, 11, 12, 13, 0x20, 0x85, 0xA0, 0x1680] ++ (List.range 11).map (0x2000 + ·) ++
    [0x2028, 0x2029, 0x202F, 0x205F, 0x3000]).map Char.ofNat

/-- All digits. -/
def digits : List Char :=
  Text.zeros.flatMap fun z => (List.range 10).map fun d => Char.ofNat (z + d)

/-- The capital letters. -/
def capitals : List Char :=
  "ABCDEFGHIJKLMNOPQRSTUVWXYZ".toList

/-- The list of the space characters has them all. -/
theorem mem_spaces (h : Text.isSpace x = true) : x ∈ spaces := by
  have listed : x.toNat ∈ [9, 10, 11, 12, 13, 0x20, 0x85, 0xA0, 0x1680] ++
      (List.range 11).map (0x2000 + ·) ++ [0x2028, 0x2029, 0x202F, 0x205F, 0x3000] := by
    simp only [Text.isSpace, Bool.or_eq_true, Bool.and_eq_true, decide_eq_true_eq, beq_iff_eq] at h
    simp only [List.mem_append, List.mem_map, List.mem_range, List.mem_cons, List.not_mem_nil,
      or_false]
    by_cases quads : 0x2000 ≤ x.toNat ∧ x.toNat ≤ 0x200A
    · exact .inl (.inr ⟨x.toNat - 0x2000, by omega, by omega⟩)
    · omega
  exact List.mem_map.2 ⟨x.toNat, listed, x.ofNat_toNat⟩

/-- The list of the digits has them all. -/
theorem mem_digits (h : Text.isDigit x = true) : x ∈ digits := by
  unfold Text.isDigit Text.digit? at h
  rw [Option.isSome_map] at h
  obtain ⟨z, found⟩ := Option.isSome_iff_exists.1 h
  have within := List.find?_some found
  simp only [Bool.and_eq_true, decide_eq_true_eq] at within
  refine List.mem_flatMap.2 ⟨z, List.mem_of_find?_eq_some found, mem_of_range (n := 10) ?_ within⟩
  exact fun i lt => List.mem_map_of_mem (List.mem_range.2 lt)

/-- The letters of units are the small and the capital ones. -/
theorem mem_of_isLetter (h : isLetter x = true) : x ∈ letters ++ capitals := by
  unfold isLetter Char.isAlpha at h
  rcases Bool.or_eq_true _ _ ▸ h with upper | lower
  · have bounds : 'A'.val ≤ x.val ∧ x.val ≤ 'Z'.val := of_decide_eq_true upper
    exact List.mem_append_right _ (mem_of_range (k := 65) (n := 26) (by decide)
      ⟨bounds.1, Nat.lt_succ_of_le bounds.2⟩)
  · exact List.mem_append_left _ (mem_letters_of_lower lower)

/-- What follows a number: a space, a slash, or the end of the value. -/
def numberEnds : List Char :=
  '/' :: enders ++ spaces

/-- What is in a unit, or follows a number. -/
def afterDigits : List Char :=
  '%' :: letters ++ capitals ++ numberEnds

/-- Neither a unit nor what follows a number starts with a digit. -/
theorem not_digit_of_mem : ∀ x ∈ afterDigits, Text.isDigit x = false := by
  decide +kernel

/-- What follows a number is no letter. -/
theorem not_letter_of_mem : ∀ x ∈ numberEnds, isLetter x = false := by
  decide +kernel

/-- What starts a number starts nothing else. -/
theorem starts_number : ∀ x ∈ '.' :: digits, Name.isStart x = false ∧ Text.isSpace x = false ∧
    x ∉ ['(', 'u', 'c', '-', '$', 'n', '#'] := by
  decide +kernel

/-! ### Numbers -/

/-- Digits and decimals. -/
theorem takes_amount (l : NumberLiteral) (hx : x ∈ afterDigits) :
    Takes file ((Prod.mk <$> .spanOne Text.isDigit <*>
        ((·.getD []) <$> .opt (.lit "." *> .spanOne Text.isDigit)))
      <|> (Prod.mk [] <$> (.lit "." *> .spanOne Text.isDigit)) : Peg Rule _)
      l.digits (x :: rest) (· = (l.whole, l.decimals)) := by
  have stops : Stops Text.isDigit (x :: rest) := stops_cons.2 (not_digit_of_mem x hx)
  have noStop : Fails (.lit "." *> .spanOne Text.isDigit : Peg Rule _) (x :: rest) :=
    .of_mem hx (by decide)
  obtain ⟨whole, decimals, unit, hw, hd, some, -⟩ := l
  by_cases none : decimals = []
  · subst none
    have digits : Takes file (.spanOne Text.isDigit : Peg Rule _) whole (x :: rest) (· = whole) :=
      .spanOne (some.resolve_right (by simp)) hw stops
    rw [NumberLiteral.digits, if_pos rfl, List.append_nil]
    exact .alt (digits.map_eq.app_nil (Takes.opt_none noStop).map_eq)
  · have after : Takes file (.lit "." *> .spanOne Text.isDigit : Peg Rule _) ('.' :: decimals)
        (x :: rest) (· = decimals) := (Takes.lit "." _).right (.spanOne none hd stops)
    rw [NumberLiteral.digits, if_neg none]
    by_cases noWhole : whole = []
    · subst noWhole
      exact .alt_else (.of_forecast ['.'] 200 (by decide) _) after.map_eq
    · have digits : Takes file (.spanOne Text.isDigit : Peg Rule _) whole
          ('.' :: decimals ++ x :: rest) (· = whole) :=
        .spanOne noWhole hw (stops_cons.2 (by decide))
      have decimals : Takes file (.opt (.lit "." *> .spanOne Text.isDigit) : Peg Rule _)
          ('.' :: decimals) (x :: rest) (· = .some decimals) :=
        (Takes.opt_some (by simp) after).mono fun _ ⟨_, e, e'⟩ => e' ▸ e
      exact .alt (digits.map_eq.app_eq decimals.map_eq)

/-- A unit, or none. -/
theorem takes_unit (l : NumberLiteral) (hx : x ∈ numberEnds) :
    Takes file (.opt (.spanOne isLetter <|> ((fun _ => ['%']) <$> .lit "%")) : Peg Rule _)
      l.unit (x :: rest) (·.getD [] = l.unit) := by
  have stops : Stops isLetter (x :: rest) := stops_cons.2 (not_letter_of_mem x hx)
  rcases l.unit_letters with percent | letters
  · rw [percent]
    have sign : Takes file (.lit "%" : Peg Rule _) ['%'] (x :: rest) (· = ()) := .lit "%" _
    refine (Takes.opt_some (by simp) (.alt_else (.of_forecast ['%'] 200 (by decide) _)
      sign.map_eq)).mono ?_
    rintro _ ⟨_, rfl, rfl⟩
    rfl
  · by_cases none : l.unit = []
    · rw [none]
      refine (Takes.opt_none (.of_mem hx (by decide +kernel))).mono ?_
      rintro _ rfl
      rfl
    · refine (Takes.opt_some (by simp) (.alt (.spanOne none letters stops))).mono ?_
      rintro _ ⟨_, rfl, rfl⟩
      rfl

/-- What comes after the digits of a number is its unit, or what follows the number. -/
theorem exists_cons_unit (l : NumberLiteral) (rest : List Char) (hx : x ∈ numberEnds) :
    ∃ y cs, l.unit ++ x :: rest = y :: cs ∧ y ∈ afterDigits := by
  cases e : l.unit with
  | nil => exact ⟨x, rest, rfl, List.mem_append_right _ hx⟩
  | cons y cs =>
    refine ⟨y, _, rfl, List.mem_append_left _ ?_⟩
    rcases l.unit_letters with percent | letters
    · rw [e] at percent
      cases percent
      decide
    · exact List.mem_cons_of_mem _ (mem_of_isLetter (letters y (e ▸ List.mem_cons_self)))

/-- What a literal starts with. -/
theorem exists_cons_text (l : NumberLiteral) : ∃ y cs, l.text = y :: cs ∧ y ∈ '.' :: digits := by
  obtain ⟨whole, decimals, unit, hw, hd, some, -⟩ := l
  cases whole with
  | cons y cs =>
    exact ⟨y, _, rfl, List.mem_cons_of_mem _ (mem_digits (hw y List.mem_cons_self))⟩
  | nil =>
    rw [NumberLiteral.text, NumberLiteral.digits, if_neg (some.resolve_left (by simp))]
    exact ⟨'.', _, rfl, List.mem_cons_self⟩

/-- None of the operands that are tried before a number. -/
theorem fails_before_number (hx : x ∈ '.' :: digits) (rest : List Char) :
    Fails (on .parens) (x :: rest) ∧ Fails (on .rawFunction) (x :: rest) ∧
      Fails (on .call) (x :: rest) ∧ Fails (on .variableUse) (x :: rest) ∧
      Fails (on .notOp) (x :: rest) := by
  obtain ⟨noStart, -, other⟩ := starts_number x hx
  have noText {t : String}
      (h : t.toList.head?.any (· ∈ ['(', 'u', 'c', '-', '$', 'n', '#']) = true) :
      ¬t.toList <+: x :: rest := fun starts => by
    obtain ⟨y, tail, e, hy⟩ := head_of_start starts h
    cases e
    exact other (of_decide_eq_true hy)
  have noName : Fails hyphenName (x :: rest) := by
    have noHyphen : (x == '-') = false := beq_false_of_ne fun e => other (e ▸ by simp)
    have none (file : String) : Takes file (.opt (.char (· == '-')) : Peg Rule _) [] (x :: rest)
        (· = none) := .opt_none (.char (stops_cons.2 (by simp_all)))
    exact .map (.seq (.map (.after _ (fun file => (none file).map_eq)
      (.char (stops_cons.2 noStart)))))
  refine ⟨?_, ?_, .call (.map (.seq (.map (.call noName)))), ?_, ?_⟩
  · exact .call (.map (.seq (.map (.seq (.map (.seq (.map (.seq (.lit (noText (by decide)))))))))))
  · exact fails_rawFunction_of_not_prefix fun t ht =>
      noText ((by decide : ∀ t ∈ ["url", "calc", "-webkit-calc", "-moz-calc"],
        t.toList.head?.any (· ∈ ['(', 'u', 'c', '-', '$', 'n', '#']) = true) t ht)
  · exact .call (.map (.map (.seq (.lit (noText (by decide))))))
  · exact .call (.map (.seq (.map (.seq (.lit (noText (by decide)))))))

/-- No literal has a number sign in it. -/
theorem ne_hash_of_mem (l : NumberLiteral) (hx : x ∈ l.text) : x ≠ '#' := by
  have digit (h : Text.isDigit x = true) : x ≠ '#' := by
    rintro rfl
    cases h
  rcases List.mem_append.1 hx with inDigits | inUnit
  · rcases List.mem_append.1 inDigits with inWhole | inDecimals
    · exact digit (l.whole_digits x inWhole)
    · split at inDecimals
      · cases inDecimals
      · rcases List.mem_cons.1 inDecimals with rfl | inDecimals
        · decide
        · exact digit (l.decimals_digits x inDecimals)
  · rintro rfl
    rcases l.unit_letters with percent | letters
    · rw [percent] at inUnit
      cases List.mem_singleton.1 inUnit
    · cases letters '#' inUnit

/-- **A number literal is its value.** -/
theorem takes_number (l : NumberLiteral) (hx : x ∈ numberEnds) :
    Takes file (on .unary) l.text (x :: rest) (· = .literal l.value) := by
  have number : Takes file (on .number) l.text (x :: rest) (· = .literal l.value) := by
    obtain ⟨y, cs, e, hy⟩ := exists_cons_unit l rest hx
    have amount : Takes file _ l.digits (y :: cs) _ := takes_amount l hy
    rw [← e] at amount
    refine .call (.app (amount.map_eq.mono ?_) (takes_unit l hx))
    rintro _ rfl unit (hu : unit.getD [] = l.unit)
    show Expr.numberOf l.whole l.decimals (unit.getD []) = _
    rw [hu]
    rfl
  obtain ⟨y, cs, e, hy⟩ := exists_cons_text l
  have none := fails_before_number hy (cs ++ x :: rest)
  rw [← List.cons_append, ← e] at none
  obtain ⟨noParens, noFunction, noCall, noVariable, noNot⟩ := none
  exact .call (.alt_else (.map (.map (.seq noNot))) (.alt (.call (.alt_else noParens
    (.alt_else noFunction (.alt_else noCall (.alt_else noVariable number.alt)))))))

/-- A number with a sign is no operand. -/
theorem fails_signed_number (l : NumberLiteral) {y : Char} (hy : y ∈ ['-', '+'])
    (hx : x ∈ numberEnds) : Fails (on .primary) (y :: (l.text ++ x :: rest)) := by
  obtain ⟨z, cs, e, hz⟩ := exists_cons_text l
  obtain ⟨noStart, -, -⟩ := starts_number z hz
  -- after a hyphen and the characters of a name something comes that opens no hole
  have noHole : Fails (on .interpolatedIdent) ('-' :: (l.text ++ x :: rest)) := by
    obtain ⟨us, vs, run, part, stops⟩ := exists_run Name.isPart l.text
    have end' : Name.isPart x = false ∧ x ≠ '#' :=
      (by decide : ∀ x ∈ numberEnds, Name.isPart x = false ∧ x ≠ '#') x hx
    obtain ⟨w, tail, next, noPart, noHash⟩ : ∃ w tail, vs ++ x :: rest = w :: tail ∧
        Name.isPart w = false ∧ w ≠ '#' := by
      cases vs with
      | nil => exact ⟨x, rest, rfl, end'⟩
      | cons w vs => exact ⟨w, _, rfl, stops_cons.1 stops, ne_hash_of_mem l (by simp [run])⟩
    rw [run, List.append_assoc, next]
    show Fails _ ('-' :: us ++ w :: tail)
    exact fails_interpolatedIdent_of_run (List.cons_ne_nil '-' us)
      (List.forall_mem_cons.2 ⟨by decide, part⟩) noPart noHash
  rw [e] at noHole ⊢
  exact fails_primary hy noStart noHole

/-- **A number literal with a sign is an operation.** -/
theorem takes_literal (l : SignedLiteral) (hx : x ∈ numberEnds) :
    Takes file (on .unary) l.text (x :: rest) (· = l.expr) := by
  have number : Takes file (on .unary) l.literal.text (x :: rest) (· = .literal l.literal.value) :=
    takes_number l.literal hx
  obtain ⟨sign, literal⟩ := l
  match sign with
  | none => exact number
  | some true =>
    exact takes_sign (x := '-') (by simp) takes_minus
      (fails_signed_number literal (by simp) hx) number
  | some false =>
    exact takes_sign (x := '+') (by simp) takes_plus
      (fails_signed_number literal (by simp) hx) number

/-- A literal does not start with space. -/
theorem stops_literal (l : SignedLiteral) (rest : List Char) :
    Stops Text.isSpace (l.text ++ rest) := by
  obtain ⟨sign, literal⟩ := l
  match sign with
  | none =>
    obtain ⟨y, cs, e, hy⟩ := exists_cons_text literal
    exact (show SignedLiteral.text ⟨none, literal⟩ = y :: cs from e) ▸
      stops_cons.2 (starts_number y hy).2.1
  | some true => exact stops_cons.2 (by decide)
  | some false => exact stops_cons.2 (by decide)

/-! ### Slashes -/

/-- A slash, or the space before it, may follow a number. -/
theorem exists_cons_slash (s : Slash) (ts : List Char) :
    ∃ y cs, s.text ++ ts = y :: cs ∧ y ∈ numberEnds := by
  obtain ⟨before, after, hbefore, -⟩ := s
  cases before with
  | nil => exact ⟨'/', _, rfl, by decide⟩
  | cons y before =>
    exact ⟨y, _, rfl, List.mem_append_right _ (mem_spaces (hbefore y List.mem_cons_self))⟩

/-- A slash and the literal after it. -/
theorem takes_slash (s : Slash) (l : SignedLiteral) (hx : x ∈ numberEnds) :
    Takes file (tail 5) (s.text ++ l.text) (x :: rest) (· = (.div, l.expr)) := by
  have before : Takes file (on .gap) s.before (['/'] ++ (s.after ++ (l.text ++ x :: rest)))
      (· = ()) := takes_gap s.before_gap (stops_cons.2 (by decide))
  have slash : Takes file (on .mulOp) ['/'] (s.after ++ (l.text ++ x :: rest)) (· = .div) :=
    .call (takes_oneOf (t := "/") (by simp)).map_eq
  have after : Takes file (on .gap) s.after (l.text ++ x :: rest) (· = ()) :=
    takes_gap s.after_gap (stops_literal l _)
  have pair := ((before.right slash).left after).map_eq (f := Prod.mk (β := Expr))
  have whole : Takes file (tail 5) (s.before ++ ['/'] ++ s.after ++ l.text) (x :: rest)
      (· = (.div, l.expr)) := pair.app_eq (takes_literal l hx)
  simpa [Slash.text] using whole

/-- Slashes with the literals after them, as they are written. -/
def divisors (ls : List (Slash × SignedLiteral)) : List Char :=
  ls.flatMap fun (s, l) => s.text ++ l.text

/-- What comes after the first literal may follow a number. -/
theorem exists_cons_divisors (ls : List (Slash × SignedLiteral)) (rest : List Char)
    (hx : x ∈ enders) :
    ∃ y cs, divisors ls ++ x :: rest = y :: cs ∧ y ∈ numberEnds := by
  cases ls with
  | nil => exact ⟨x, rest, rfl, List.mem_append_left _ (List.mem_cons_of_mem _ hx)⟩
  | cons sl ls =>
    rw [divisors, List.flatMap_cons, List.append_assoc, List.append_assoc]
    exact exists_cons_slash sl.1 _

/-- All the slashes are read, with the literals after them. -/
theorem takes_divisors (ls : List (Slash × SignedLiteral)) (hx : x ∈ enders) :
    Takes file (.star (tail 5)) (divisors ls) (x :: rest)
      (· = ls.map fun (_, l) => (.div, l.expr)) := by
  induction ls with
  | nil => exact .star_end (.of_mem hx (by decide))
  | cons sl ls ih =>
    obtain ⟨s, l⟩ := sl
    obtain ⟨y, cs, e, hy⟩ := exists_cons_divisors ls rest hx
    have first : Takes file (tail 5) (s.text ++ l.text) (y :: cs) _ := takes_slash s l hy
    rw [← e] at first
    have some : s.text ++ l.text ≠ [] := by simp [Slash.text]
    refine (Takes.star_more some first ih).mono ?_
    rintro _ ⟨_, _, rfl, rfl, rfl⟩
    rfl

/-- What is no number is divided by one literal after the other. -/
theorem joinAll_divisors {left : Expr} (h : ∀ x u, left ≠ .literal (.number x u))
    (ls : List (Slash × SignedLiteral)) :
    joinAll 5 left (ls.map fun (_, l) => (.div, l.expr)) =
      ls.foldl (fun left (_, l) => .binary left .div l.expr) left := by
  induction ls generalizing left with
  | nil => rfl
  | cons sl ls ih =>
    rw [List.map_cons, joinAll_cons h, ih (by simp)]
    rfl

/-- **Literals with slashes between them read as one product**, in which no two numbers stand
next to each other. -/
theorem takes_slashes (c : SlashChain) (hx : x ∈ enders) :
    Takes file (on .commaList) c.text (x :: rest) (· = c.expr) := by
  let second : Slash × SignedLiteral := (c.slash, { sign := none, literal := c.second })
  obtain ⟨y, cs, e, hy⟩ := exists_cons_divisors (second :: c.others) rest hx
  have first : Takes file (on .unary) c.first.text (y :: cs) _ := takes_number c.first hy
  rw [← e] at first
  have product : Takes file (on .mulExpr) (c.first.text ++ divisors (second :: c.others))
      (x :: rest) (· = joinAll 5 (.literal c.first.value) ((second :: c.others).map fun (_, l) =>
        (.div, l.expr))) := .call (first.map_eq.app_eq (takes_divisors _ hx))
  have joined : joinAll 5 (.literal c.first.value) ((second :: c.others).map fun (_, l) =>
      (.div, l.expr)) = c.expr := by
    -- the first two literals become a text
    have text : c.first.amount.text ++ String.ofList c.first.unit ++ "/" ++ c.second.amount.text ++
        String.ofList c.second.unit = c.first.css ++ "/" ++ c.second.css := by
      simp only [NumberLiteral.css, String.append_assoc]
    rw [SlashChain.expr, ← text]
    have noNumber (s : String) (x : Numeric) (u : String) :
        Expr.literal (.word s) ≠ .literal (.number x u) := by simp [Value.word]
    exact joinAll_divisors (noNumber _) c.others
  exact joined ▸ takes_product product hx

end Grammar
end Stylesheet
