/-
# A rule with one declaration

The text of a rule with one declaration reads as a rule with one declaration
(`Css.parse_rule`), whatever the value is, as long as it is read as an expression before the
semicolon.  If the expression has a value in every scope, the CSS is the rule with the value
(`Css.cssTo_rule`).
-/

import Stylesheet.Proofs.Css.Reread

namespace Stylesheet

open Grammar Simple Node

namespace Simple

variable {file : String} {ts rest : List Char} {P : Node → Prop}

/-- Whether what is built is one node. -/
def BuildsOne (P : Node → Prop) (b : Built (List Node)) : Prop :=
  ∃ m, P m ∧ b = .ok [m]

/-- One statement and no other. -/
theorem takes_one {inBlock : Bool} (some : ts ≠ []) (ends : EndsStatements inBlock rest)
    (one : Takes file (on .statement) ts rest fun b => ∃ m, P m ∧ b = .ok (.some m)) :
    Takes file (.star (on .statement)) ts rest fun found =>
      BuildsOne P (Grammar.statements found) := by
  have none : Takes file (.star (on .statement)) [] rest (· = []) := ends.takes_none
  have whole : Takes file (.star (on .statement)) (ts ++ []) rest _ := .star_more some one none
  rw [List.append_nil] at whole
  refine whole.mono ?_
  rintro _ ⟨_, _, rfl, ⟨m, hm, rfl⟩, rfl⟩
  exact ⟨m, hm, rfl⟩

end Simple

namespace Css

open Eval

variable {file : String} {s n g v : List Char} {e : Expr}

/-- The text of a rule with one declaration. -/
def ruleText (s n g v : List Char) : List Char :=
  s ++ '\x7b' :: (n ++ [':'] ++ g ++ (v ++ [';']) ++ ['\x7d'])

/-- The rule with one declaration that is read on these lines. -/
def ruleNode (file : String) (s n : List Char) (e : Expr) (line line' : Nat) : Node :=
  .plain (infoAt { file, line }) (.rule (plainText s) none) [declared n e { file, line := line' }]

/-- The CSS of a rule with one declaration. -/
def ruleCss (o : Options) (selectors : List String) (name value : String) : String :=
  let header := (selectorSeparator o.style).intercalate selectors
  let opened := match o.style with
    | .expanded => header ++ " \x7b\n" ++ o.indent ++ name ++ ": " ++ value ++ ";\n"
    | .compressed => header ++ "\x7b" ++ name ++ ":" ++ value
  opened ++ "\x7d" ++ "\n"

/-- A block with one declaration in it. -/
theorem takes_declared_block (hn : IsPropertyText n) (hg : IsGap g) (hv : IsValueText v e)
    (rest : List Char) :
    Takes file (on .block) ('\x7b' :: (n ++ [':'] ++ g ++ (v ++ [';']) ++ ['\x7d'])) rest
      (BuildsOne fun m => ∃ line : Nat, m = declared n e { file, line }) := by
  have closed : EndsStatements true (['\x7d'] ++ rest) := ⟨rest, rfl⟩
  have one : Takes file (on .statement) (n ++ [':'] ++ g ++ (v ++ [';']) ++ [])
      (['\x7d'] ++ rest)
      fun b => ∃ m, (∃ line : Nat, m = declared n e { file, line }) ∧ b = .ok (some m) := by
    refine (takes_declared_statement hn hv hg isGap_nil (.inl rfl) closed.stops).mono ?_
    rintro _ ⟨line, rfl⟩
    exact ⟨_, ⟨line, rfl⟩, rfl⟩
  rw [List.append_nil] at one
  have starts : Stops Text.isSpace (n ++ [':'] ++ g ++ (v ++ [';']) ++ ['\x7d'] ++ rest) := by
    simp only [List.append_assoc]
    exact MadeOf.stops hn (by decide)
  have block := takes_block isGap_nil starts (takes_one (by simp) closed one)
  simpa using block

/-- **The text of a rule with one declaration is that rule.** -/
theorem parse_rule (file : String) (hs : IsSelectorText s) (hn : IsPropertyText n)
    (hg : IsGap g) (hv : IsValueText v e) :
    ∃ line line' : Nat, Document.parse file (String.ofList (ruleText s n g v)) =
      .ok (.plain {} .root [ruleNode file s n e line line']) := by
  have rule : Takes file (on .rule) (ruleText s n g v) ([] ++ [])
      fun b => ∃ line line' : Nat, b = .ok (ruleNode file s n e line line') := by
    refine .call ((takes_around (takes_selector hs).map_eq
      (takes_declared_block hn hg hv [])).mono ?_)
    rintro _ ⟨_, ⟨_, ⟨line', rfl⟩, rfl⟩, line, rfl⟩
    exact ⟨line, line', rfl⟩
  have one : Takes file (on .statement) (ruleText s n g v ++ []) [] fun b =>
      ∃ m, (∃ line line' : Nat, m = ruleNode file s n e line line') ∧ b = .ok (some m) := by
    refine (takes_rule_choice hs isGap_nil (stops_nil _) rule).mono ?_
    rintro _ ⟨_, ⟨line, line', rfl⟩, rfl⟩
    exact ⟨_, ⟨line, line', rfl⟩, rfl⟩
  rw [List.append_nil] at one
  have starts : Stops Text.isSpace (ruleText s n g v ++ []) := by
    rw [List.append_nil]
    exact MadeOf.stops hs (by decide)
  have ended : EndsStatements false [] := rfl
  obtain ⟨nodes, ⟨_, ⟨line, line', rfl⟩, rfl⟩, parsed⟩ := Document.parse_of_takes
    (String.toList_ofList ..) isGap_nil starts
    (takes_one (by simp [ruleText]) ended one)
  exact ⟨line, line', parsed _ rfl⟩

/-- What is written of a rule with one declaration. -/
theorem renderChildren_rule (o : Options) (i j : Info) (written written' : Template)
    (expr : Option Expr) (selectors : List String) (name value : String) :
    renderChildren o [.plain i (.rule written (some selectors))
        [.plain j (.declaration written' expr (some name) (some value)) []]] =
      ruleCss o selectors name value := by
  let ends := match o.style with
    | .expanded => "\n"
    | .compressed => ""
  have lineEnd : ends = "" ∨ ends = "\n" := by
    unfold ends
    cases o.style <;> simp
  rw [ruleCss, ← endLine_brace _ lineEnd, renderChildren]
  unfold ends
  cases o.style <;>
    simp [itemsOfDocument, separate, itemsByChild, itemsOf, itemsOfAll, itemsOfHead, textOf,
      valueSeparator, Emitter.items, Emitter.item, Emitter.openBlock, Emitter.closeBlock,
      Emitter.declaration, Emitter.line, Emitter.write, Emitter.settle, Emitter.margin,
      String.append_assoc]

/-- The rule after its evaluation. -/
def ruleResult (file : String) (s n : List Char) (e : Expr) (line line' : Nat)
    (selectors : List String) (css : String) : Node :=
  .plain (infoAt { file, line }).apart (.rule (plainText s) (some selectors))
    [.plain (infoAt { file, line := line' }).apart
      (.declaration (plainText n) (some e) (some (String.ofList n)) (some css)) []]

/-- A document of a rule with one declaration has a value if the declaration has one in every
scope. -/
theorem outcome_visit_rule {style : Style} {k : Nat} {i : ScopeId} {w : World}
    {selectors : List String} (hw : Evaluation.Unruled i w) (some : selectors ≠ [])
    (words : ∀ s ∈ selectors, Joined " " DottedWord s) (hn : IsPropertyText n) {value : Value}
    {css : String} (evaluates : ∀ i, (Recursion.ofDepth k).eval i e = pure value)
    (hcss : value.css = .ok css) (notEmpty : css ≠ "") (line line' : Nat) :
    ((Recursion.ofDepth (k + 3)).visit i (.plain {} .root
        [ruleNode file (selectorText style selectors) n e line line'])).outcome w =
      .ok [.plain {} .root
        [ruleResult file (selectorText style selectors) n e line line' selectors css]] := by
  let leaf : Node := .plain (infoAt { file, line := line' }).apart
    (.declaration (plainText n) (.some e) (.some (String.ofList n)) (.some css)) []
  have declaration (b : ScopeId) (w : World) : ((Recursion.ofDepth (k + 1)).visit b
      (declared n e { file, line := line' })).outcome w = .ok [leaf] := by
    refine Evaluation.outcome_visit_plain ?_
    rw [plainText, Evaluation.visitPlain_declaration (evaluates b) hcss notEmpty
      (trim_of_propertyText hn)]
    rfl
  refine Evaluation.outcome_visit_plain (Evaluation.outcome_around (.plain {} .root)
    (Evaluation.outcome_visitAll_singleton (Evaluation.outcome_visit_plain ?_)))
  obtain ⟨_, outcome, rfl⟩ := Evaluation.outcome_rule (P := (· = [leaf]))
    (infoAt { file, line }).apart hw.newBlock (resolve_selectorText style some words)
    fun b w => ⟨_, Evaluation.outcome_visitAll_singleton (declaration b w), rfl⟩
  exact outcome

/-- **A rule with one declaration is compiled to the rule with the value**, wherever the value
comes from. -/
theorem cssTo_rule {style : Style} {o : Options} {k : Nat} {selectors : List String}
    (some : selectors ≠ []) (words : ∀ s ∈ selectors, Joined " " DottedWord s)
    (hn : IsPropertyText n) {value : Value} {css : String}
    (evaluates : ∀ i, (Recursion.ofDepth k).eval i e = pure value) (hcss : value.css = .ok css)
    (notEmpty : css ≠ "") (line line' : Nat) (log : Log) :
    (Document.cssTo (k + 3) o (.plain {} .root
        [ruleNode file (selectorText style selectors) n e line line']) log).1 =
      .ok (ruleCss o selectors (String.ofList n) css) := by
  let rule := ruleResult file (selectorText style selectors) n e line line' selectors css
  have laid : Layout.Inert (Layout.layAll .root [rule]) [rule.markGroupEnd true] := by
    refine Layout.inert_layAll (.cons (Layout.inert_declarations (.inl rfl) (by simp) ?_ ?_) .nil)
    · exact List.forall_mem_singleton.2 ⟨_, _, _, _, _, rfl⟩
    · exact laidOut_plain.2 ⟨rfl, rfl, .inl rfl, rfl⟩
  have right : Nesting.check (.plain {} .root
      [ruleNode file (selectorText style selectors) n e line line']) = .ok () := rfl
  obtain ⟨w, run⟩ := Evaluation.runFresh_of_outcome (outcome_visit_rule
    (Evaluation.unruled_start o log) some words hn evaluates hcss notEmpty line line')
  have compiled := Document.cssTo_of_stages right run fun s _ => (laid s).1
  exact compiled.trans (congrArg Except.ok (renderChildren_rule ..))

end Css
end Stylesheet
