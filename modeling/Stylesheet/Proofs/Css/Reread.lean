/-
# Reading CSS back

Laying out what a plain style sheet is evaluated to changes nothing but the ends of groups.
So the CSS text of a plain style sheet, in either style, is read as a document that is well
nested and whose laid-out form is the same style sheet (`Css.reread`).
-/

import Stylesheet.Proofs.Css.Evaluated
import Stylesheet.Proofs.Layout.Finish
import Stylesheet.Proofs.Stages

namespace Stylesheet

namespace Node

/-- The form of a node does not tell whether it ends a group. -/
theorem form_markGroupEnd (b : Bool) (n : Node) : (n.markGroupEnd b).form = n.form := by
  cases n <;> rfl

/-- The form of some nodes does not tell which of them end groups. -/
theorem formAll_markGroupEnd (b : Bool) (ns : List Node) :
    formAll (ns.map (markGroupEnd b)) = formAll ns := by
  induction ns with
  | nil => rfl
  | cons n ns ih => rw [List.map_cons, formAll, formAll, form_markGroupEnd, ih]

/-- A mark at the end of a group leaves a node laid out. -/
theorem laidOut_markGroupEnd {n : Node} (b : Bool) (h : n.laidOut) :
    (n.markGroupEnd b).laidOut := by
  cases n <;> exact h

end Node

namespace Layout

open Node

variable {around : Around} {n : Node}

/-- Nodes that stay where they are stay together. -/
theorem inert_layAll {ns ls : List Node}
    (h : List.Forall₂ (fun n l => Inert (layNode around n) (.stay l)) ns ls) :
    Inert (layAll around ns) ls := by
  induction h with
  | nil => exact .pure []
  | cons first _ ih => exact first.bind (ih.bind (.pure _))

/-- Whether a node is a declaration without content. -/
def IsDeclaration (n : Node) : Prop :=
  ∃ info written expr name value, n = .plain info (.declaration written expr name value) []

/-- A declaration stays as it is. -/
theorem inert_declaration (h : IsDeclaration n) (out : n.laidOut) :
    Inert (layNode around n) (.stay n) := by
  have group := group_of_laidOut out
  obtain ⟨info, written, expr, name, value, rfl⟩ := h
  exact (Inert.pure _).bind (inert_settle group)

/-- What is around a node that no rule is around. -/
def Around.Outside (around : Around) : Prop :=
  around = .root ∨ around = .other

/-- Outside of rules and queries, what is around is proper. -/
theorem Around.Outside.proper (h : around.Outside) : around.proper := by
  rcases h with rfl | rfl <;> rfl

/-- A block that keeps its content ends a group. -/
theorem before_stay (place : around.Outside) (h : n.children ≠ []) :
    Laid.before around n [] = .stay (n.markGroupEnd true) := by
  have some : n.children.isEmpty = false := by simpa using h
  rw [Laid.before, some, if_neg Bool.false_ne_true]
  rcases place with rfl | rfl <;> rfl

/-- A rule of declarations stays as it is, but that it ends a group. -/
theorem inert_declarations (place : around.Outside) {info : Info} {written : Template}
    {resolved : Option (List String)} {content : List Node} (some : content ≠ [])
    (declarations : ∀ n ∈ content, IsDeclaration n)
    (out : (Node.plain info (.rule written resolved) content).laidOut) :
    Inert (layNode around (.plain info (.rule written resolved) content))
      (.stay (Node.markGroupEnd true (.plain info (.rule written resolved) content))) := by
  obtain ⟨group, -, -, inner⟩ := laidOut_plain.1 out
  have stays : ∀ n ∈ content, staysInRule n = true := fun n hn => by
    obtain ⟨_, _, _, _, _, rfl⟩ := declarations n hn
    rfl
  have finished : finish around info (.rule written resolved) content =
      .stay (Node.markGroupEnd true (.plain info (.rule written resolved) content)) := by
    have kept : content.filter staysInRule = content := List.filter_eq_self.2 stays
    have hoisted : content.filter (fun n => !staysInRule n) = [] :=
      List.filter_eq_nil_iff.2 fun n hn => by simp [stays n hn]
    rw [finish, finishRule, kept, hoisted]
    exact before_stay place some
  have content' : Inert (layAll (around.content info (.rule written resolved)) content) content :=
    inert_layAll (List.forall₂_same.2 fun n hn =>
      inert_declaration (declarations n hn) (laidOutAll_iff.1 inner n hn))
  have whole : Inert (layNode around (.plain info (.rule written resolved) content))
      (finish around info (.rule written resolved) content) :=
    content'.bind (inert_finish place.proper group inner)
  exact finished ▸ whole

/-- A plain rule stays as it is, but that it ends a group. -/
theorem inert_rule (place : around.Outside) (h : n.IsPlainRule) (out : n.laidOut) :
    Inert (layNode around n) (.stay (n.markGroupEnd true)) := by
  obtain ⟨-, -, someContent, plain⟩ := h
  refine inert_declarations place someContent (fun n hn => ?_) out
  obtain ⟨-, -, -⟩ := plain n hn
  exact ⟨_, _, _, _, _, rfl⟩

/-- A plain query stays as it is, but for the ends of groups. -/
theorem inert_media (place : around.Outside) (h : n.IsPlainMedia) (out : n.laidOut) :
    ∃ l, Inert (layNode around n) (.stay l) ∧ l.form = n.form := by
  cases h with
  | @mk info written query content words someContent plain =>
    obtain ⟨group, -, -, inner⟩ := laidOut_plain.1 out
    let laid := content.map (Node.markGroupEnd true)
    have someLaid : laid ≠ [] := by simpa [laid] using someContent
    have laidOut : laidOutAll laid := by
      refine laidOutAll_iff.2 fun m hm => ?_
      obtain ⟨n, hn, rfl⟩ := List.mem_map.1 hm
      exact laidOut_markGroupEnd true (laidOutAll_iff.1 inner n hn)
    have rules : ∀ m ∈ laid, m.kind = .rule := fun m hm => by
      obtain ⟨n, hn, rfl⟩ := List.mem_map.1 hm
      cases plain n hn
      rfl
    have finished : finish around info (.media written (some query)) laid =
        .stay (Node.markGroupEnd true (.plain info (.media written (some query)) laid)) := by
      have rises : risen around laid = laid := by
        rcases place with rfl | rfl <;> rfl
      have kept : laid.filter (·.kind != .media) = laid :=
        List.filter_eq_self.2 fun m hm => by simp [rules m hm]
      have none : laid.filter (·.kind == .media) = [] :=
        List.filter_eq_nil_iff.2 fun m hm => by simp [rules m hm]
      rw [finish, rises, finishMedia, kept, joinedQueries, none]
      exact before_stay place someLaid
    have inside : around.inside.Outside := by
      rcases place with rfl | rfl <;> exact .inr rfl
    have content' : Inert (layAll (around.content info (.media written (some query))) content)
        laid := by
      refine inert_layAll (List.forall₂_map_right_iff.2 (List.forall₂_same.2 fun n hn => ?_))
      exact inert_rule inside (plain n hn) (laidOutAll_iff.1 inner n hn)
    have whole : Inert (layNode around (.plain info (.media written (some query)) content))
        (finish around info (.media written (some query)) laid) :=
      content'.bind (inert_finish place.proper group laidOut)
    refine ⟨_, finished ▸ whole, ?_⟩
    rw [form_markGroupEnd, Node.form, Node.form, formAll_markGroupEnd]

/-- **Laying out the content of a plain style sheet keeps its form.** -/
theorem inert_sheet {ns : List Node} (h : ∀ n ∈ ns, n.IsPlainRule ∨ n.IsPlainMedia)
    (out : laidOutAll ns) :
    ∃ ls, Inert (layAll .root ns) ls ∧ formAll ls = formAll ns := by
  induction ns with
  | nil => exact ⟨[], .pure [], rfl⟩
  | cons n ns ih =>
    obtain ⟨hn, hns⟩ := List.forall_mem_cons.1 h
    obtain ⟨first, others⟩ := laidOutAll_cons.1 out
    have one : ∃ l, Inert (layNode .root n) (.stay l) ∧ l.form = n.form := by
      rcases hn with rule | media
      · exact ⟨_, inert_rule (.inl rfl) rule first, form_markGroupEnd true n⟩
      · exact inert_media (.inl rfl) media first
    obtain ⟨l, inert, form⟩ := one
    obtain ⟨ls, inert', forms⟩ := ih hns others
    exact ⟨l :: ls, inert.bind (inert'.bind (.pure _)), by rw [formAll, formAll, form, forms]⟩

end Layout

namespace Css

open Node Eval

variable {style : Style} {file : String}

/-- What is read of a plain style sheet has its form once it is evaluated and laid out. -/
theorem flatTo_sheet (options : Options) (log : Log) {ns ms : List Node}
    (plain : ∀ n ∈ ns, n.IsPlainRule ∨ n.IsPlainMedia)
    (e : unplacedAll ms = Simple.draftAll file (statementsAll style ns)) :
    ∃ ls log', Document.flatTo Evaluation.depth options (.plain {} .root ms) log =
      (.ok [.plain {} .root ls], log') ∧ formAll ls = formAll ns := by
  obtain ⟨k, deep⟩ : ∃ k, Evaluation.depth = k + 5 := ⟨Evaluation.depth - 5, by decide⟩
  obtain ⟨evaluated, outcome, restated⟩ := Evaluation.visit_sheet k
    (Evaluation.unruled_start options log) {} plain e
  obtain ⟨plain', out, form⟩ := restated_all restated
  obtain ⟨ls, inert, form'⟩ := Layout.inert_sheet plain' out
  obtain ⟨w, run⟩ := Evaluation.runFresh_of_outcome (deep.symm ▸ outcome)
  obtain ⟨notes, flat⟩ := Document.flatTo_of_stages run (inert _).1
  exact ⟨ls, notes, flat, form'.trans form⟩

/-- **The CSS text of a plain style sheet reads back as the style sheet it was written from.**
Whatever the style is, and with any space for a level of indentation, the text is read as a
document that is well nested; evaluated and laid out it has the same content in the same
order, with the same resolved selectors, queries, names and values. -/
theorem reread {o : Options} (indent : ∀ x ∈ o.indent.toList, Text.isSpace x = true) {t : Node}
    (plain : t.IsPlainSheet) (file : String) (options : Options) (log : Log) :
    ∃ css tree laid log', render? o t = some css ∧ Document.parse file css = .ok tree ∧
      Nesting.check tree = .ok () ∧
      Document.flatTo Evaluation.depth options tree log = (.ok [laid], log') ∧
      laid.form = t.form := by
  obtain ⟨css, rendered, written⟩ := written_render indent plain
  cases plain with
  | @mk info content plain =>
    obtain ⟨children, parsed, unplaced⟩ := Document.parse_of_written file written
    obtain ⟨ls, log', flat, form⟩ := flatTo_sheet options log plain unplaced
    refine ⟨css, .plain {} .root children, .plain {} .root ls, log', rendered, parsed,
      Nesting.check_sheet plain unplaced, flat, ?_⟩
    rw [Node.form, Node.form, form]

/-- A rule and a query with the same rule in it, without optional space. -/
theorem reread_compressed :
    let leaf : Node :=
      .plain {} (.declaration [] none (some "margin-top") (some "auto")) []
    let rule : Node := .plain {} (.rule [] (some [".box p", "a"])) [leaf]
    let t : Node := .plain {} .root [rule, .plain {} (.media [] (some "wide print")) [rule]]
    let css := ".box p,a\x7bmargin-top:auto\x7d" ++
      "@media wide print\x7b.box p,a\x7bmargin-top:auto\x7d\x7d\n"
    render? { style := .compressed } t = some css ∧
      ∃ tree laid log', Document.parse "plain.css" css = .ok tree ∧
        Nesting.check tree = .ok () ∧
        Document.flatTo Evaluation.depth {} tree #[] = (.ok [laid], log') ∧
        laid.form = t.form := by
  intro leaf rule t css
  have margin : Joined "-" Word "margin-top" :=
    ⟨["margin", "top"], List.cons_ne_nil _ _, by decide, rfl⟩
  have box : Joined " " DottedWord ".box p" :=
    ⟨[".box", "p"], List.cons_ne_nil _ _, List.forall_mem_cons.2
      ⟨⟨"box", by decide, .inr rfl⟩, List.forall_mem_singleton.2 ⟨"p", by decide, .inl rfl⟩⟩, rfl⟩
  have link : Joined " " DottedWord "a" :=
    ⟨["a"], List.cons_ne_nil _ _, List.forall_mem_singleton.2 ⟨"a", by decide, .inl rfl⟩, rfl⟩
  have query : Joined " " Word "wide print" :=
    ⟨["wide", "print"], List.cons_ne_nil _ _, by decide, rfl⟩
  have plainRule : rule.IsPlainRule :=
    .mk (List.cons_ne_nil _ _) (List.forall_mem_cons.2 ⟨box, List.forall_mem_singleton.2 link⟩)
      (List.cons_ne_nil _ _)
      (List.forall_mem_singleton.2 (.mk margin (by decide) (by decide)))
  have plain : t.IsPlainSheet :=
    .mk (List.forall_mem_cons.2 ⟨.inl plainRule, List.forall_mem_singleton.2
      (.inr (.mk query (List.cons_ne_nil _ _) (List.forall_mem_singleton.2 plainRule)))⟩)
  have text : render? { style := .compressed } t = some css := by decide +kernel
  obtain ⟨css', tree, laid, log', rendered, read⟩ :=
    reread (o := { style := .compressed }) (by decide) plain "plain.css" {} #[]
  rw [text] at rendered
  cases rendered
  exact ⟨text, tree, laid, log', read⟩

end Css
end Stylesheet
