/-
# Slashes between numbers stay

What number literals with slashes between them read as is no quotient of two numbers, if the
first two literals have no sign: on the left of each slash stands a text.  So every slash joins
two texts (`Evaluation.Comes.slash`), and the CSS of a declaration with such a value has the
literals and the slashes in it (`Css.cssTo_slashes`).

A literal with a sign is an operation and not a number where slashes are joined, so one that is
first or second is divided (`Css.compile_divided`).
-/

import Stylesheet.Proofs.Css.Single
import Stylesheet.Proofs.Grammar.Slashes

namespace Stylesheet

open Grammar Simple

/-- A word is printed as it is. -/
theorem Value.css_word (s : String) : (Value.word s).css = .ok s :=
  rfl

/-- A sign before a number. -/
theorem Value.operateUnary_sign (minus : Bool) (x : Number.Binary64) (unit : String) :
    Value.operateUnary (if minus then .minus else .plus) (.number (.real x) unit) =
      .ok (.number (.real (if some minus = some true then x.neg else x)) unit) := by
  cases minus <;> rfl

namespace Evaluation

variable {e left : Expr} {v : Value} {t : String} {depth : Nat}

/-- Whether an expression comes to a value in every scope, if the evaluation may go this deep. -/
def Comes (e : Expr) (v : Value) (depth : Nat) : Prop :=
  ∀ k ≥ depth, ∀ i, (Recursion.ofDepth k).eval i e = pure v

namespace Comes

/-- An expression whose parts come to their values one level further down. -/
theorem deeper (h : ∀ k ≥ depth, ∀ i, evalExpr (Recursion.ofDepth k) i e = pure v) :
    Comes e v (depth + 1) := by
  intro k deep i
  obtain ⟨k, rfl⟩ := Nat.exists_eq_add_of_le' (Nat.le_trans (Nat.le_add_left 1 depth) deep)
  exact h k (Nat.le_of_add_le_add_right deep) i

/-- A literal comes to its value at any depth. -/
theorem literal (v : Value) : Comes (.literal v) v 1 :=
  deeper fun _ _ _ => rfl

/-- A literal comes to its number, whatever its sign is. -/
theorem signed (l : SignedLiteral) : Comes l.expr l.value 2 := by
  obtain ⟨sign, number⟩ := l
  have positive : Comes (.literal number.value) number.value 1 := literal _
  cases sign with
  | none =>
    have same : SignedLiteral.value ⟨none, number⟩ = number.value := by
      rw [SignedLiteral.value, SignedLiteral.amount, if_neg (by simp), NumberLiteral.value]
    rw [same]
    exact fun k deep => positive k (Nat.le_of_succ_le deep)
  | some minus =>
    have same : Value.operateUnary (if minus then .minus else .plus) number.value =
        .ok (SignedLiteral.value ⟨some minus, number⟩) := by
      rw [SignedLiteral.value, SignedLiteral.amount, NumberLiteral.value]
      exact Value.operateUnary_sign ..
    refine deeper fun k deep i => ?_
    rw [SignedLiteral.expr, evalExpr, positive k deep i, pure_bind, same]
    rfl

/-- **A slash after a text joins.** -/
theorem slash (h : Comes left (.word t) depth) (deep : 2 ≤ depth) (l : SignedLiteral) :
    Comes (.binary left .div l.expr) (.word (t ++ "/" ++ l.css)) (depth + 1) := by
  refine deeper fun k deep' i => ?_
  have quotient : Value.operate .div (.word t) l.value = .ok (.word (t ++ "/" ++ l.css)) := rfl
  rw [evalExpr, h k deep' i, pure_bind, signed l k (Nat.le_trans deep deep') i]
  dsimp only
  rw [pure_bind, quotient]
  rfl

/-- Slashes after a text join one literal after the other. -/
theorem slashes (h : Comes left (.word t) depth) (deep : 2 ≤ depth)
    (ls : List (Slash × SignedLiteral)) :
    Comes (ls.foldl (fun left (_, l) => .binary left .div l.expr) left)
      (.word ("/".intercalate (t :: ls.map fun (_, l) => l.css))) (depth + ls.length) := by
  induction ls generalizing left t depth with
  | nil => simpa using h
  | cons sl ls ih =>
    obtain ⟨s, l⟩ := sl
    have joined : "/".intercalate ((t ++ "/" ++ l.css) :: ls.map fun (_, l) => l.css) =
        "/".intercalate (t :: l.css :: ls.map fun (_, l) => l.css) := by
      cases ls <;> simp [String.append_assoc]
    have more := ih (h.slash deep l) (Nat.le_succ_of_le deep)
    rw [joined, Nat.add_right_comm] at more
    exact more

/-- **What literals with slashes between them read as comes to their text.** -/
theorem chain (c : SlashChain) : Comes c.expr (.word c.css) (c.others.length + 2) := by
  have start : Comes (.literal (.word (c.first.css ++ "/" ++ c.second.css)))
      (.word (c.first.css ++ "/" ++ c.second.css)) 2 :=
    fun k deep => literal _ k (Nat.le_of_succ_le deep)
  have whole := start.slashes (Nat.le_refl 2) c.others
  have joined : "/".intercalate ((c.first.css ++ "/" ++ c.second.css) ::
      c.others.map fun (_, l) => l.css) = c.css := by
    unfold SlashChain.css
    cases c.others <;> simp [String.append_assoc]
  rwa [joined, Nat.add_comm] at whole

end Comes
end Evaluation

/-- Literals with slashes between them are a value. -/
theorem SlashChain.isValueText (c : SlashChain) : IsValueText c.text c.expr where
  start := by
    obtain ⟨x, cs, e, hx⟩ := exists_cons_text c.first
    have noColon : ∀ x ∈ '.' :: digits, x ≠ ':' := by decide +kernel
    obtain ⟨more, text⟩ : ∃ more, c.text = x :: more :=
      ⟨_, by rw [SlashChain.text, e, List.cons_append]⟩
    exact ⟨x, more, text, (starts_number x hx).2.1, noColon x hx⟩
  takes := takes_slashes c

/-- The text of a chain of slashes is not empty. -/
theorem SlashChain.css_ne_empty (c : SlashChain) : c.css ≠ "" := by
  rw [SlashChain.css, String.intercalate_cons_cons, ← String.toList_inj.ne]
  simp

namespace Css

open Eval

/-- **Slashes between number literals stay**, if the first two literals have no sign.  The
literals read as one expression wherever a value may stand; a declaration of it, in any scope,
becomes one whose value is the literals' CSS with slashes between, whatever its name is; and a
rule with such a declaration compiles to the rule with this value. -/
theorem cssTo_slashes (c : SlashChain) :
    IsValueText c.text c.expr ∧
    (∀ depth ≥ c.others.length + 2, ∀ (i : ScopeId) (info : Info) (name : Template)
        (cs : List Node),
      Evaluation.visitPlain (Recursion.ofDepth depth) i info
        (.declaration name (some c.expr) none none) cs = (do
          let filled ← Evaluation.fill (Recursion.ofDepth depth) i name
          return [.plain info
            (.declaration name (some c.expr) (some (Text.trim filled)) (some c.css)) cs])) ∧
    ∀ (o : Options) (file : String) (style : Style) {selectors : List String} {n g : List Char},
      selectors ≠ [] → (∀ s ∈ selectors, Joined " " DottedWord s) → IsPropertyText n → IsGap g →
      ∃ tree, Document.parse file
          (String.ofList (ruleText (selectorText style selectors) n g c.text)) = .ok tree ∧
        ∀ depth ≥ c.others.length + 5, ∀ log,
          (Document.cssTo depth o tree log).1 =
            .ok (ruleCss o selectors (String.ofList n) c.css) := by
  refine ⟨c.isValueText, fun depth deep i info name cs => ?_, ?_⟩
  · exact Evaluation.visitPlain_valued (Evaluation.Comes.chain c depth deep i)
      (Value.css_word _) c.css_ne_empty
      info none none cs
  · intro o file style selectors n g some words hn hg
    obtain ⟨line, line', parsed⟩ := parse_rule file (isSelectorText style some words) hn hg
      c.isValueText
    refine ⟨_, parsed, fun depth deep log => ?_⟩
    obtain ⟨k, rfl⟩ := Nat.exists_eq_add_of_le' (Nat.le_trans (Nat.le_add_left 3 _) deep)
    have deep' : c.others.length + 2 ≤ k := by omega
    exact cssTo_rule some words hn (fun i => Evaluation.Comes.chain c k deep' i)
      (Value.css_word _) c.css_ne_empty line line' log

/-- A shorthand with a unit, and a third literal with space and a sign before it. -/
theorem cssTo_slashes_font :
    ∃ tree, Document.parse "font.scss" "a\x7bfont:12px/1.5 / -2;\x7d" = .ok tree ∧
      ∀ depth ≥ 6, ∀ log, (Document.cssTo depth {} tree log).1 =
        .ok "a \x7b\n  font: 12px/1.5/-2;\n\x7d\n" := by
  let plain : Slash :=
    { before := [], after := [], before_gap := isGap_nil, after_gap := isGap_nil }
  let spaced : Slash :=
    { before := [' '], after := [' '], before_gap := isGap_blank, after_gap := isGap_blank }
  let number (whole decimals unit : String)
      (h : (∀ x ∈ whole.toList, Text.isDigit x = true) ∧
        (∀ x ∈ decimals.toList, Text.isDigit x = true) ∧ whole.toList ≠ [] ∧
        ∀ x ∈ unit.toList, isLetter x = true) : NumberLiteral :=
    { whole := whole.toList, decimals := decimals.toList, unit := unit.toList
      whole_digits := h.1, decimals_digits := h.2.1, nonempty := .inl h.2.2.1
      unit_letters := .inr h.2.2.2 }
  let c : SlashChain :=
    { first := number "12" "" "px" (by decide), slash := plain
      second := number "1" "5" "" (by decide)
      others := [(spaced, { sign := some true, literal := number "2" "" "" (by decide) })] }
  have link : ∀ s ∈ ["a"], Joined " " DottedWord s := List.forall_mem_singleton.2
    ⟨["a"], List.cons_ne_nil _ _, List.forall_mem_singleton.2 ⟨"a", by decide, .inl rfl⟩, rfl⟩
  have font : IsPropertyText "font".toList := isPropertyText
    ⟨["font"], List.cons_ne_nil _ _, List.forall_mem_singleton.2 (by decide), rfl⟩
  have text : String.ofList (ruleText (selectorText .compressed ["a"]) "font".toList [] c.text) =
      "a\x7bfont:12px/1.5 / -2;\x7d" := by decide +kernel
  have css : ruleCss {} ["a"] (String.ofList "font".toList) c.css =
      "a \x7b\n  font: 12px/1.5/-2;\n\x7d\n" := by decide +kernel
  have compiled := (cssTo_slashes c).2.2 {} "font.scss" .compressed (List.cons_ne_nil _ _) link
    font isGap_nil
  rwa [text, css] at compiled

/-- A sign before the first literal makes an operation of it, which is divided. -/
theorem compile_divided :
    (compile {} "a\x7bb:-1/2\x7d" #[]).1 = .ok "a \x7b\n  b: -0.5;\n\x7d\n" := by
  decide +kernel

end Css
end Stylesheet
