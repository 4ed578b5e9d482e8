/-
# What is read of a plain style sheet

The nodes that are read of the text of a plain style sheet (`Node.IsRead`) are where they may
be, and evaluated they are plain again, with the same form (`Node.Restated`).  A rule is
evaluated where no rule is around it, so its selectors are resolved to what they are written
from; visiting one leaves it so for the next (`Evaluation.Unruled`).
-/

import Stylesheet.Nesting
import Stylesheet.Proofs.Css.Written
import Stylesheet.Proofs.Evaluation.Frame
import Stylesheet.Proofs.Layout.Shape

namespace Stylesheet

open Css Simple Eval

variable {style : Style} {file : String}

namespace Node

/-- A node that is plain but for its place is plain. -/
theorem unplaced_eq_plain {m : Node} {i : Info} {h : Head} {cs : List Node}
    (e : m.unplaced = .plain i h cs) :
    ∃ j ds, m = .plain j h ds ∧ j.group = i.group ∧ unplacedAll ds = cs := by
  match m with
  | .plain j h' ds =>
    cases e
    exact ⟨j, ds, rfl, rfl, rfl⟩

/-- Whether a node is what is read of the text of a plain one. -/
def IsRead (style : Style) (file : String) (n m : Node) : Prop :=
  draftAll file (n.statements style) = [m.unplaced]

/-- What is read of nodes that are one statement each. -/
theorem isRead_all {P : Node → Prop} (one : ∀ n, P n → ∃ s, n.statements style = [s])
    {ns ms : List Node} (plain : ∀ n ∈ ns, P n)
    (e : unplacedAll ms = draftAll file (statementsAll style ns)) :
    List.Forall₂ (fun n m => P n ∧ IsRead style file n m) ns ms := by
  induction ns generalizing ms with
  | nil =>
    cases ms with
    | nil => exact .nil
    | cons m ms => cases e
  | cons n ns ih =>
    obtain ⟨hn, others⟩ := List.forall_mem_cons.1 plain
    obtain ⟨s, hs⟩ := one n hn
    rw [statementsAll, hs] at e
    cases ms with
    | nil => cases e
    | cons m ms =>
      obtain ⟨first, rest⟩ := List.cons.inj e
      refine .cons ⟨hn, ?_⟩ (ih others rest)
      rw [IsRead, hs, first]
      rfl

/-- A plain declaration is one statement. -/
theorem statements_declaration (n : Node) (h : n.IsPlainDeclaration) :
    ∃ s, n.statements style = [s] := by
  cases h
  exact ⟨_, rfl⟩

/-- A plain rule is one statement. -/
theorem statements_rule (n : Node) (h : n.IsPlainRule) : ∃ s, n.statements style = [s] := by
  cases h
  exact ⟨_, rfl⟩

/-- A plain block is one statement. -/
theorem statements_block (n : Node) (h : n.IsPlainRule ∨ n.IsPlainMedia) :
    ∃ s, n.statements style = [s] := by
  rcases h with h | h
  · exact statements_rule n h
  · cases h
    exact ⟨_, rfl⟩

/-- What is read of a declaration. -/
theorem eq_of_isRead_declaration {info : Info} {written : Template} {expr : Option Expr}
    {name value : String} {m : Node}
    (h : IsRead style file
      (.plain info (.declaration written expr (some name) (some value)) []) m) :
    ∃ i, m = .plain i (.declaration [.text name] (some (Expr.ofWord value)) none none) [] ∧
      i.group = none := by
  obtain ⟨i, cs, rfl, group, inner⟩ := unplaced_eq_plain (List.cons.inj h).1.symm
  have name' : plainText name.toList = [.text name] := by
    rw [plainText, String.ofList_toList]
  cases cs with
  | nil => exact ⟨i, by rw [← name', textOf, textOf, Option.getD_some, Option.getD_some,
      String.ofList_toList], group⟩
  | cons c cs => cases inner

/-- What is read of a rule. -/
theorem eq_of_isRead_rule {info : Info} {written : Template} {selectors : List String}
    {content : List Node} {m : Node}
    (h : IsRead style file (.plain info (.rule written (some selectors)) content) m) :
    ∃ i cs, m = .plain i (.rule (plainText (selectorText style selectors)) none) cs ∧
      i.group = none ∧ unplacedAll cs = draftAll file (statementsAll style content) :=
  unplaced_eq_plain (List.cons.inj h).1.symm

/-- What is read of a query. -/
theorem eq_of_isRead_media {info : Info} {written : Template} {query : String}
    {content : List Node} {m : Node}
    (h : IsRead style file (.plain info (.media written (some query)) content) m) :
    ∃ i cs, m = .plain i (.media (plainText (queryText style query)) none) cs ∧
      i.group = none ∧ unplacedAll cs = draftAll file (statementsAll style content) :=
  unplaced_eq_plain (List.cons.inj h).1.symm

/-- Whether a node says the same as a plain one, being laid out itself. -/
structure Restated (plain : Node → Prop) (n m : Node) : Prop where
  plain : plain m
  laidOut : m.laidOut
  form : m.form = n.form

/-- Some nodes that say the same as others. -/
theorem restated_all {plain : Node → Prop} {ns ms : List Node}
    (h : List.Forall₂ (Restated plain) ns ms) :
    (∀ m ∈ ms, plain m) ∧ laidOutAll ms ∧ formAll ms = formAll ns := by
  induction h with
  | nil => exact ⟨List.forall_mem_nil _, rfl, rfl⟩
  | cons first _ ih =>
    obtain ⟨plain, out, form⟩ := ih
    refine ⟨List.forall_mem_cons.2 ⟨first.plain, plain⟩, laidOutAll_cons.2 ⟨first.laidOut, out⟩, ?_⟩
    rw [formAll, formAll, first.form, form]

/-- Some nodes are restated by some. -/
theorem ne_nil_of_restated {plain : Node → Prop} {ns ms : List Node}
    (h : List.Forall₂ (Restated plain) ns ms) (some' : ns ≠ []) : ms ≠ [] := by
  rintro rfl
  exact some' (List.forall₂_nil_right_iff.1 h)

end Node

namespace Nesting

open Node

/-- Some nodes are accepted if each of them is. -/
theorem checkAll_of_forall₂ {around : List Kind} {ns ms : List Node}
    (h : List.Forall₂ (fun _ m => checkIn around m = .ok ()) ns ms) :
    checkAll around ms = .ok () := by
  induction h with
  | nil => rfl
  | cons first _ ih =>
    rw [checkAll, first]
    exact ih

/-- A plain rule is accepted in the document and in a query. -/
theorem check_rule {n m : Node} {around : List Kind}
    (place : around = [.root] ∨ around = [.media, .root]) (h : n.IsPlainRule)
    (read : IsRead style file n m) : checkIn around m = .ok () := by
  obtain ⟨-, -, -, plain⟩ := h
  obtain ⟨i, cs, rfl, -, inner⟩ := eq_of_isRead_rule read
  have content : checkAll (.rule :: around) cs = .ok () := by
    refine checkAll_of_forall₂ ((isRead_all statements_declaration plain inner).imp ?_)
    rintro n m ⟨⟨-, -, -⟩, read⟩
    obtain ⟨i, rfl, -⟩ := eq_of_isRead_declaration read
    rcases place with rfl | rfl <;> rfl
  rcases place with rfl | rfl <;> exact content

/-- A plain query is accepted in the document. -/
theorem check_media {n m : Node} (h : n.IsPlainMedia) (read : IsRead style file n m) :
    checkIn [.root] m = .ok () := by
  obtain ⟨-, -, plain⟩ := h
  obtain ⟨i, cs, rfl, -, inner⟩ := eq_of_isRead_media read
  exact checkAll_of_forall₂ ((isRead_all statements_rule plain inner).imp
    fun n m h => check_rule (.inr rfl) h.1 h.2)

/-- **What is read of a plain style sheet is well nested.** -/
theorem check_sheet {info : Info} {ns ms : List Node}
    (plain : ∀ n ∈ ns, n.IsPlainRule ∨ n.IsPlainMedia)
    (e : unplacedAll ms = Simple.draftAll file (statementsAll style ns)) :
    check (.plain info .root ms) = .ok () := by
  have content : checkAll [.root] ms = .ok () := by
    refine checkAll_of_forall₂ ((isRead_all statements_block plain e).imp fun n m h => ?_)
    rcases h.1 with rule | media
    · exact check_rule (.inl rfl) rule h.2
    · exact check_media media h.2
  exact content

end Nesting

namespace Evaluation

open Node

/-- Whether a scope is one in a store that operations make, with no rule around it. -/
structure Unruled (i : ScopeId) (w : World) : Prop where
  reachable : w.scopes.Reachable
  lt : (i : Nat) < w.scopes.all.size
  selector : w.scopes.selector? i = none

variable {i : ScopeId} {w : World}

/-- An evaluation starts where no rule is. -/
theorem unruled_start (options : Options) (log : Log) :
    Unruled (start options #[] log).1 (start options #[] log).2 where
  reachable := .add (some options) none .empty fun p (h : none = some p) => nomatch h
  lt := Nat.one_pos
  selector := rfl

/-- A node that is evaluated in a fresh scope. -/
theorem runFresh_of_outcome {depth : Nat} {o : Options} {log : Log} {n : Node} {ms : List Node}
    (h : ((Recursion.ofDepth depth).visit (start o #[] log).1 n).outcome (start o #[] log).2 =
      .ok ms) :
    ∃ w, Eval.runFresh o #[] log (fun scope => (Recursion.ofDepth depth).visit scope n) =
      (.ok ms, w) :=
  ⟨_, Prod.ext h rfl⟩

/-- A new scope has no rule around it where its parent has none. -/
theorem Unruled.newBlock (h : Unruled i w) :
    Unruled w.scopes.all.size ((Eval.newBlock i).after w) where
  reachable := h.reachable.add none (some false) fun p e => Option.some.inj e ▸ h.lt
  lt := by simp [Eval.newBlock]
  selector := (Scopes.selector?_add h.reachable.wellFormed h.lt false).trans h.selector

/-- No node gains the selectors of a rule for the scope that it is evaluated in. -/
theorem not_gains_selector (n : Node) : ¬ n.gains.selector := by
  fun_induction Node.gains n with
  | case1 _ h _ => cases h <;> exact not_false
  | case2 => exact not_false
  | case3 _ _ _ _ ih => exact ih

/-- A visit leaves a scope without a rule around it. -/
theorem Unruled.visit (h : Unruled i w) (depth : Nat) (n : Node) :
    Unruled i (((Recursion.ofDepth depth).visit i n).after w) := by
  obtain ⟨reachable, frame⟩ :=
    Evaluation.within_visit (Recursion.framed_ofDepth depth) i n w h.reachable h.lt
  refine ⟨reachable, Nat.lt_of_lt_of_le h.lt frame.grows, ?_⟩
  rw [frame.selector?_eq h.reachable.wellFormed (not_gains_selector n) h.lt, h.selector]

/-- What nodes become that become one node each, wherever the invariant holds. -/
theorem outcome_visitAll {r : Recursion} {I : World → Prop} {Q : Node → Node → Prop}
    {ns ms : List Node}
    (h : List.Forall₂ (fun n m => ∀ w, I w → I ((r.visit i m).after w) ∧
      ∃ m', (r.visit i m).outcome w = .ok [m'] ∧ Q n m') ns ms) (hw : I w) :
    ∃ ms', (visitAll r i ms).outcome w = .ok ms' ∧ List.Forall₂ Q ns ms' := by
  have rounds : ∃ l, (ms.mapM (r.visit i)).outcome w = .ok l ∧ List.Forall₂ Q ns l.flatten := by
    induction h generalizing w with
    | nil => exact ⟨[], rfl, .nil⟩
    | @cons n m ns ms first _ ih =>
      obtain ⟨after, m', outcome, hm⟩ := first w hw
      obtain ⟨l, others, hl⟩ := ih after
      refine ⟨[m'] :: l, ?_, .cons hm hl⟩
      rw [List.mapM_cons, outcome_bind, outcome]
      dsimp only
      rw [outcome_bind, others]
      rfl
  obtain ⟨l, outcome, hl⟩ := rounds
  refine ⟨l.flatten, ?_, hl⟩
  rw [visitAll, outcome_bind, outcome]
  rfl

/-- What a node on its own becomes. -/
theorem outcome_visitAll_singleton {r : Recursion} {n : Node} {ms : List Node}
    (h : (r.visit i n).outcome w = .ok ms) : (visitAll r i [n]).outcome w = .ok ms := by
  have rounds : ([n].mapM (r.visit i)).outcome w = .ok [ms] := by
    rw [List.mapM_cons, outcome_bind, h]
    rfl
  rw [visitAll, outcome_bind, rounds]
  exact congrArg Except.ok (List.append_nil ms)

/-- A node around what its content becomes in a fresh block. -/
theorem outcome_around {r : Recursion} {body ms : List Node} (around : List Node → Node)
    (h : (visitAll r w.scopes.all.size body).outcome ((Eval.newBlock i).after w) = .ok ms) :
    (visitBody r i body >>= fun children => pure [around children]).outcome w =
      .ok [around ms] := by
  have inner : (visitBody r i body).outcome w = .ok ms := h
  rw [outcome_bind, inner]
  rfl

/-- A text without holes is its own value. -/
theorem fill_text (r : Recursion) (i : ScopeId) (s : String) :
    fill r i [.text s] = pure s := by
  rw [fill, List.mapM_cons]
  simp [fragmentText]

/-- What is visited of a node. -/
theorem outcome_visit_plain {depth : Nat} {info : Info} {h : Head} {cs ms : List Node}
    (visits : (visitPlain (Recursion.ofDepth depth) i info.apart h cs).outcome w = .ok ms) :
    ((Recursion.ofDepth (depth + 1)).visit i (.plain info h cs)).outcome w = .ok ms :=
  outcome_locate_eq_ok.2 visits

/-- **A declaration becomes its value**, under the name that its template comes to. -/
theorem visitPlain_valued {r : Recursion} {name : Template} {e : Expr} {v : Value} {value : String}
    (evaluates : r.eval i e = pure v) (css : v.css = .ok value) (notEmpty : value ≠ "")
    (info : Info) (resolved resolved' : Option String) (cs : List Node) :
    visitPlain r i info (.declaration name (some e) resolved resolved') cs = (do
      let filled ← fill r i name
      return [.plain info (.declaration name (some e) (some (Text.trim filled)) (some value))
        cs]) := by
  have evaluates' : evalOptional r i (some e) = pure v := evaluates
  have notEmpty' : value.isEmpty = false := by simpa using notEmpty
  rw [visitPlain, evaluates']
  refine congrArg (fill r i name >>= ·) (funext fun filled => ?_)
  rw [pure_bind, css]
  exact if_neg (by simp [notEmpty'])

/-- A declaration with a value of its own comes to that value. -/
theorem visitPlain_declaration {r : Recursion} {info : Info} {name value : String} {e : Expr}
    {v : Value} (evaluates : r.eval i e = pure v) (css : v.css = .ok value)
    (notEmpty : value ≠ "") (trimmed : Text.trim name = name) :
    visitPlain r i info (.declaration [.text name] (some e) none none) [] =
      pure [.plain info (.declaration [.text name] (some e) (some name) (some value)) []] := by
  rw [visitPlain_valued evaluates css notEmpty, fill_text, pure_bind, trimmed]

/-- **A declaration becomes what it was.** -/
theorem visit_declaration (depth : Nat) (i : ScopeId) (w : World) {n m : Node}
    (h : n.IsPlainDeclaration) (read : IsRead style file n m) :
    ∃ m', ((Recursion.ofDepth (depth + 2)).visit i m).outcome w = .ok [m'] ∧
      Restated IsPlainDeclaration n m' := by
  cases h with
  | @mk _ _ _ name value hname hvalue notNull =>
    obtain ⟨j, rfl, -⟩ := eq_of_isRead_declaration read
    obtain ⟨v, e, css⟩ := css_ofWord hvalue notNull
    refine ⟨.plain j.apart (.declaration [.text name] (some (Expr.ofWord value)) (some name)
      (some value)) [], ?_, .mk hname hvalue notNull, rfl, rfl⟩
    have evaluates : (Recursion.ofDepth (depth + 1)).eval i (Expr.ofWord value) = pure v := by
      rw [e]
      rfl
    refine outcome_visit_plain ?_
    rw [visitPlain_declaration evaluates css hvalue.1 (trim_of_joined hname)]
    rfl

/-- A rule whose content becomes something in whatever scope it is evaluated. -/
theorem outcome_rule {r : Recursion} {P : List Node → Prop} (info : Info) {cs : List Node}
    {text : String} {selectors : List String} (hw : Unruled i w)
    (resolves : Selector.resolve text none = .ok selectors)
    (body : ∀ b w, ∃ ms, (visitAll r b cs).outcome w = .ok ms ∧ P ms) :
    ∃ ms, (visitPlain r i info (.rule [.text text] none) cs).outcome w =
      .ok [.plain info (.rule [.text text] (some selectors)) ms] ∧ P ms := by
  let inner : ScopeId := w.scopes.all.size
  let ruled := (Eval.modifyScopes fun s => s.setSelector inner (some selectors)).after
    ((Eval.newBlock i).after w)
  obtain ⟨ms, outcome, holds⟩ := body ruled.scopes.all.size ((Eval.newBlock inner).after ruled)
  refine ⟨ms, ?_, holds⟩
  rw [visitPlain, fill_text, pure_bind, outcome_bind, outcome_scopes]
  dsimp only
  rw [after_scopes, hw.selector, resolves]
  exact outcome_around (.plain info (.rule [.text text] (some selectors))) outcome

/-- **A rule becomes what it was**, where no rule is around it. -/
theorem visit_rule (depth : Nat) (hw : Unruled i w) {n m : Node} (h : n.IsPlainRule)
    (read : IsRead style file n m) :
    ∃ m', ((Recursion.ofDepth (depth + 3)).visit i m).outcome w = .ok [m'] ∧
      Restated IsPlainRule n m' := by
  cases h with
  | @mk _ _ selectors content some words someContent plain =>
    obtain ⟨j, cs, rfl, -, inner⟩ := eq_of_isRead_rule read
    have body (b : ScopeId) (w : World) : ∃ ms,
        (visitAll (Recursion.ofDepth (depth + 2)) b cs).outcome w = .ok ms ∧
          List.Forall₂ (Restated IsPlainDeclaration) content ms := by
      refine outcome_visitAll (I := fun _ => True)
        ((isRead_all statements_declaration plain inner).imp ?_) trivial
      exact fun n m h w _ => ⟨trivial, visit_declaration depth b w h.1 h.2⟩
    obtain ⟨ms, outcome, restated⟩ := outcome_rule j.apart hw
      (resolve_selectorText style some words) body
    have someLeft := ne_nil_of_restated restated someContent
    obtain ⟨plain', out, form⟩ := restated_all restated
    refine ⟨_, outcome_visit_plain outcome, .mk some words someLeft plain', ?_, ?_⟩
    · exact laidOut_plain.2 ⟨rfl, rfl, .inl rfl, out⟩
    · rw [Node.form, Node.form, form]
      rfl

/-- A query whose content becomes something where no rule is around it. -/
theorem outcome_media {r : Recursion} {P : List Node → Prop} (info : Info) {cs : List Node}
    {text : String} (hw : Unruled i w)
    (body : ∀ b w, Unruled b w → ∃ ms, (visitAll r b cs).outcome w = .ok ms ∧ P ms) :
    ∃ ms, (visitPlain r i info (.media [.text text] none) cs).outcome w =
      .ok [.plain info (.media [.text text] (some (Text.collapse text))) ms] ∧ P ms := by
  obtain ⟨ms, outcome, holds⟩ := body _ _ hw.newBlock
  refine ⟨ms, ?_, holds⟩
  rw [visitPlain, fillCollapsed, fill_text, pure_bind, pure_bind]
  exact outcome_around (.plain info (.media [.text text] (some (Text.collapse text)))) outcome

/-- **A query becomes what it was.** -/
theorem visit_media (depth : Nat) (hw : Unruled i w) {n m : Node} (h : n.IsPlainMedia)
    (read : IsRead style file n m) :
    ∃ m', ((Recursion.ofDepth (depth + 4)).visit i m).outcome w = .ok [m'] ∧
      Restated IsPlainMedia n m' := by
  cases h with
  | @mk _ _ query content words someContent plain =>
    obtain ⟨j, cs, rfl, -, inner⟩ := eq_of_isRead_media read
    have body (b : ScopeId) (w : World) (hw : Unruled b w) : ∃ ms,
        (visitAll (Recursion.ofDepth (depth + 3)) b cs).outcome w = .ok ms ∧
          List.Forall₂ (Restated IsPlainRule) content ms := by
      refine outcome_visitAll ((isRead_all statements_rule plain inner).imp ?_) hw
      exact fun n m h w hw => ⟨hw.visit _ m, visit_rule depth hw h.1 h.2⟩
    obtain ⟨ms, outcome, restated⟩ := outcome_media j.apart hw body
    have someLeft := ne_nil_of_restated restated someContent
    obtain ⟨plain', out, form⟩ := restated_all restated
    rw [collapse_queryText style words] at outcome
    refine ⟨_, outcome_visit_plain outcome, .mk words someLeft plain', ?_, ?_⟩
    · exact laidOut_plain.2 ⟨rfl, rfl, .inl rfl, out⟩
    · rw [Node.form, Node.form, form]
      rfl

/-- **The content of a plain style sheet becomes what it was.** -/
theorem visit_sheet (depth : Nat) (hw : Unruled i w) (info : Info) {ns ms : List Node}
    (plain : ∀ n ∈ ns, n.IsPlainRule ∨ n.IsPlainMedia)
    (e : unplacedAll ms = draftAll file (statementsAll style ns)) :
    ∃ ms', ((Recursion.ofDepth (depth + 5)).visit i (.plain info .root ms)).outcome w =
        .ok [.plain info.apart .root ms'] ∧
      List.Forall₂ (Restated fun m => m.IsPlainRule ∨ m.IsPlainMedia) ns ms' := by
  have each {n m : Node} {w : World} {b : ScopeId} (hw : Unruled b w)
      (h : n.IsPlainRule ∨ n.IsPlainMedia) (read : IsRead style file n m) :
      ∃ m', ((Recursion.ofDepth (depth + 4)).visit b m).outcome w = .ok [m'] ∧
        Restated (fun m => m.IsPlainRule ∨ m.IsPlainMedia) n m' := by
    rcases h with rule | media
    · obtain ⟨m', outcome, plain', out, form⟩ := visit_rule (depth + 1) hw rule read
      exact ⟨m', outcome, .inl plain', out, form⟩
    · obtain ⟨m', outcome, plain', out, form⟩ := visit_media depth hw media read
      exact ⟨m', outcome, .inr plain', out, form⟩
  obtain ⟨ms', outcome, restated⟩ := outcome_visitAll
    ((isRead_all statements_block plain e).imp fun n m h w hw =>
      ⟨hw.visit (depth + 4) m, each hw h.1 h.2⟩) hw.newBlock
  exact ⟨ms', outcome_visit_plain (outcome_around (.plain info.apart .root) outcome), restated⟩

end Evaluation
end Stylesheet
