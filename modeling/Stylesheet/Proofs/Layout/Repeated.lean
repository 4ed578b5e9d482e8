/-
# Laying out again

A tree in normal form leaves nothing for the layout pass to do: its rules hold only what
stays in a rule, no query is directly in another, nothing in it is empty, and nothing rises
or is replaced.  So the pass leaves every node of it as it is (`Layout.repeated_layNode`),
and laying out a laid-out document once more gives the same document
(`Document.layOut_layOut`).

Only the ends of the groups may differ, so trees are compared without them
(`Node.withoutEnds`): the copy of a rule that a query has risen out of ends no group at
first, and does when the query is laid out where it stands by then.
-/

import Stylesheet.Proofs.Layout.Normal

namespace Stylesheet

namespace Node

mutual

/-- The tree without the ends of its groups; all else is kept. -/
def withoutEnds : Node → Node
  | plain i h cs => plain { i with groupEnd := false } h (withoutEndsAll cs)
  | cond i t cs o =>
    cond { i with groupEnd := false } t (withoutEndsAll cs) (withoutEndsOption o)

/-- Some trees without the ends of their groups. -/
def withoutEndsAll : List Node → List Node
  | [] => []
  | n :: ns => n.withoutEnds :: withoutEndsAll ns

/-- A clause that may be absent without the ends of its groups. -/
def withoutEndsOption : Option Node → Option Node
  | none => none
  | some n => some n.withoutEnds

end

variable {n : Node} {ns ms : List Node}

/-- The ends of groups are taken from some nodes one by one. -/
theorem withoutEndsAll_eq (ns : List Node) : withoutEndsAll ns = ns.map withoutEnds := by
  induction ns with
  | nil => rfl
  | cons n ns ih => rw [withoutEndsAll, ih, List.map_cons]

/-- A mark at the end of a group is taken off. -/
theorem withoutEnds_markGroupEnd (b : Bool) (n : Node) :
    (n.markGroupEnd b).withoutEnds = n.withoutEnds := by
  cases n <;> rfl

/-- Without its end of a group a node is of the same kind. -/
theorem kind_withoutEnds (n : Node) : n.withoutEnds.kind = n.kind := by
  cases n <;> rfl

mutual

/-- A node is laid out if it is without the ends of its groups. -/
theorem laidOut_withoutEnds (n : Node) : n.withoutEnds.laidOut = n.laidOut := by
  match n with
  | plain i h cs =>
    have empty : (withoutEndsAll cs).isEmpty = cs.isEmpty := by cases cs <;> rfl
    rw [withoutEnds, laidOut, laidOut, laidOutAll_withoutEnds cs, empty]
  | cond .. => rfl

/-- As `laidOut_withoutEnds`, for some nodes. -/
theorem laidOutAll_withoutEnds (ns : List Node) :
    laidOutAll (withoutEndsAll ns) = laidOutAll ns := by
  match ns with
  | [] => rfl
  | n :: ns =>
    rw [withoutEndsAll, laidOutAll, laidOutAll, laidOut_withoutEnds n, laidOutAll_withoutEnds ns]

end

/-- Whether some trees differ in the ends of their groups at most. -/
def Alike (ns ms : List Node) : Prop :=
  withoutEndsAll ns = withoutEndsAll ms

namespace Alike

/-- Nodes that differ in the ends of their groups are both laid out, or neither. -/
theorem laidOut (alike : Alike ns ms) (out : laidOutAll ms) : laidOutAll ns := by
  rw [← laidOutAll_withoutEnds, alike, laidOutAll_withoutEnds]
  exact out

/-- Two lists that differ in the ends of their groups, each with more after it. -/
theorem append {ns' ms' : List Node} (alike : Alike ns ms) (others : Alike ns' ms') :
    Alike (ns ++ ns') (ms ++ ms') := by
  unfold Alike at *
  rw [withoutEndsAll_eq, withoutEndsAll_eq] at *
  rw [List.map_append, List.map_append, alike, others]

/-- Nodes of the same kinds. -/
theorem exists_kind (alike : Alike ns ms) (hn : n ∈ ns) : ∃ m ∈ ms, m.kind = n.kind := by
  rw [Alike, withoutEndsAll_eq, withoutEndsAll_eq] at alike
  have mem : n.withoutEnds ∈ ms.map withoutEnds := alike ▸ List.mem_map_of_mem hn
  obtain ⟨m, hm, e⟩ := List.mem_map.1 mem
  exact ⟨m, hm, by rw [← kind_withoutEnds m, e, kind_withoutEnds]⟩

/-- There are as many nodes whatever ends a group. -/
theorem ne_nil (alike : Alike ns ms) (some' : ms ≠ []) : ns ≠ [] := by
  rintro rfl
  cases ms with
  | nil => exact some' rfl
  | cons => cases alike

end Alike

/-- Marking the last node changes an end of a group at most. -/
theorem alike_changeLast (b : Bool) (ns : List Node) :
    Alike (Layout.changeLast (markGroupEnd b) ns) ns := by
  induction ns with
  | nil => rfl
  | cons n ns ih =>
    cases ns with
    | nil => exact congrArg ([·]) (withoutEnds_markGroupEnd b n)
    | cons m ns => exact congrArg (n.withoutEnds :: ·) ih

end Node

namespace Layout

open Node

variable {top : Bool} {around : Around} {info : Info} {head : Head} {n : Node}
  {cs laid ns : List Node}

/-- Wherever nodes stand, marking the last one changes an end of a group at most. -/
theorem alike_markLast (around : Around) (ns : List Node) : Alike (markLast around ns) ns := by
  cases around with
  | rule => rfl
  | _ => exact alike_changeLast true ns

/-- Whether a node stays where it is: in a rule only what a rule keeps does. -/
def Around.keeps (around : Around) (n : Node) : Bool :=
  match around with
  | .rule .. => staysInRule n
  | _ => true

/-- A block that holds something leaves itself when nothing follows it. -/
theorem alike_before (around : Around) (some' : cs ≠ []) (alike : Alike laid cs) :
    Alike (Laid.before around (.plain info head laid) []).left [.plain info head cs] := by
  have holds : (Node.plain info head laid).children.isEmpty = false :=
    List.isEmpty_eq_false_iff.2 (alike.ne_nil some')
  have same : Alike [.plain info head laid] [.plain info head cs] :=
    congrArg (fun cs => [Node.plain { info with groupEnd := false } head cs]) alike
  unfold Laid.before
  rw [holds]
  exact (alike_markLast around _).trans same

/-- **A block in normal form leaves itself.** -/
theorem alike_finish (flat : Flat top (.plain info head cs)) (block : head.isBlock)
    (keeps : around.keeps (.plain info head cs)) (alike : Alike laid cs) :
    Alike (finish around info head laid).left [.plain info head cs] := by
  obtain ⟨-, some', holds, -⟩ := normal_plain.1 flat.normal
  have inside {n : Node} (hn : n ∈ laid) : head.kind.holds n.kind := by
    obtain ⟨m, hm, e⟩ := alike.exists_kind hn
    exact e ▸ holds m hm
  cases head with
  | rule =>
    have stay {n : Node} (hn : n ∈ laid) : staysInRule n := by
      have declared := inside hn
      rw [Head.kind, Kind.holds, List.contains_iff_mem] at declared
      simpa [staysInRule] using declared
    have all : laid.filter staysInRule = laid := List.filter_eq_self.2 fun n hn => stay hn
    have none' : (laid.filter fun n => !staysInRule n) = [] :=
      List.filter_eq_nil_iff.2 fun n hn => by simp [stay hn]
    rw [finish, finishRule, all, none']
    exact alike_before around (some' rfl) alike
  | media query resolved =>
    have apart {n : Node} (hn : n ∈ laid) : n.kind ≠ .media := by
      intro e
      have joined := inside hn
      rw [e] at joined
      cases joined
    have all : laid.filter (·.kind != .media) = laid :=
      List.filter_eq_self.2 fun n hn => bne_iff_ne.2 (apart hn)
    have none' : joinedQueries resolved laid = [] := by
      rw [joinedQueries, List.filter_eq_nil_iff.2 fun n hn => by simp [apart hn]]
      rfl
    have place : risen around laid = laid := by
      cases around with
      | rule => cases keeps
      | _ => rfl
    rw [finish, place, finishMedia, all, none']
    exact alike_before around (some' rfl) alike
  | supports =>
    have place : risen around laid = laid := by
      cases around with
      | rule => cases keeps
      | _ => rfl
    rw [finish, place, finishSupports]
    exact alike_before around (some' rfl) alike
  | directive =>
    exact congrArg (fun cs => [Node.plain { info with groupEnd := false } _ cs]) alike
  | _ => cases block

/-- What is kept in a flat block stays there. -/
theorem keeps_content (flat : Flat top (.plain info head cs))
    (keeps : around.keeps (.plain info head cs)) (block : head.isBlock) :
    ∀ c ∈ cs, (around.content info head).keeps c := by
  obtain ⟨-, -, holds, -⟩ := normal_plain.1 flat.normal
  intro c hc
  cases head with
  | rule =>
    have declared := holds c hc
    rw [Head.kind, Kind.holds, List.contains_iff_mem] at declared
    show staysInRule c
    simpa [staysInRule] using declared
  | media | supports =>
    cases around with
    | rule => cases keeps
    | _ => rfl
  | directive => rfl
  | _ => cases block

/-- A block that is kept is in no rule, so what is around it is proper. -/
theorem proper_of_keeps (keeps : around.keeps (.plain info head cs)) (block : head.isBlock) :
    around.proper := by
  cases around with
  | rule =>
    cases head with
    | declaration | comment => cases block
    | _ => cases keeps
  | _ => rfl

/-- What is in a node in normal form is in normal form, and no plain import. -/
theorem flatAll_children (flat : Flat top (.plain info head cs)) : FlatAll false cs := by
  obtain ⟨-, -, -, out⟩ := laidOut_plain.1 flat.laidOut
  obtain ⟨-, -, holds, normal⟩ := normal_plain.1 flat.normal
  refine fun c hc => ⟨laidOutAll_iff.1 out c hc, normal c hc, fun _ e => ?_⟩
  have sheet := holds c hc
  rw [e] at sheet
  obtain ⟨final, -⟩ := (laidOut_plain.1 flat.laidOut).2
  cases head with
  | root => cases final
  | _ => cases sheet

mutual

/-- **A node in normal form leaves itself** where it stays, and the groups as they are. -/
theorem repeated_layNode {top : Bool} {around : Around} (n : Node) (flat : Flat top n)
    (keeps : around.keeps n) :
    ∃ laid, Inert (layNode around n) laid ∧ Alike laid.left [n] := by
  match n with
  | .plain info head cs =>
    obtain ⟨group, final, block, out⟩ := laidOut_plain.1 flat.laidOut
    rw [layNode]
    cases head with
    | declaration | comment =>
      exact ⟨_, (Inert.pure _).bind (inert_settle group), rfl⟩
    | importSheet uri =>
      cases block.resolve_left nofun
      have empty : Inert (layAll .other []) [] := .pure []
      have proper : around.proper := by
        cases around with
        | rule => cases keeps
        | _ => rfl
      exact ⟨_, empty.bind (inert_finish proper group rfl), rfl⟩
    | rule | media | supports | directive =>
      obtain ⟨laid, inert, alike⟩ := repeated_layAll cs (flatAll_children flat)
        (keeps_content flat keeps rfl)
      exact ⟨_, inert.bind (inert_finish (proper_of_keeps keeps rfl) group (alike.laidOut out)),
        alike_finish flat rfl keeps alike⟩
    | _ => cases final
  | .cond .. => cases flat.laidOut

/-- Nodes in normal form leave themselves where they stay. -/
theorem repeated_layAll {top : Bool} {around : Around} (ns : List Node) (flat : FlatAll top ns)
    (keeps : ∀ n ∈ ns, around.keeps n) :
    ∃ left, Inert (layAll around ns) left ∧ Alike left ns := by
  match ns with
  | [] => exact ⟨[], .pure [], rfl⟩
  | n :: ns =>
    obtain ⟨first, inert, alike⟩ :=
      repeated_layNode n (flat n List.mem_cons_self) (keeps n List.mem_cons_self)
    obtain ⟨others, inert', alike'⟩ := repeated_layAll ns
      (fun m hm => flat m (List.mem_cons_of_mem n hm))
      (fun m hm => keeps m (List.mem_cons_of_mem n hm))
    rw [layAll]
    exact ⟨_, inert.bind (inert'.bind (.pure _)), alike.append alike'⟩

end

end Layout

/-- **Laying out what is laid out changes nothing.**  Take a text that can be read, with its
nesting right, and evaluated.  What the evaluation makes of it is one tree; and if the tree
can be laid out, to one document, then this document can be laid out again, whatever groups
there are and whatever has been noted, to one document that differs from it in the ends of
groups at most. -/
theorem Document.layOut_layOut {depth : Nat} {o : Options} {text : String} {tree : Node}
    {evaluated : Captured (List Node)} {log log' notes notes' : Log}
    (load : Document.load o text log = (.ok tree, log'))
    (run : Document.evaluateTo depth o { content := tree } notes = (.ok evaluated, notes')) :
    ∃ root, evaluated.content = [root] ∧
      ∀ (before after : Log) (laid : Captured (List Node)),
        Document.layOut { content := root, groups := evaluated.groups } before =
          (.ok laid, after) →
        ∃ sheet, laid.content = [sheet] ∧ ∀ (groups : Groups) (before' : Log),
          ∃ again after' sheet', Document.layOut { content := sheet, groups } before' =
            (.ok again, after') ∧ again.content = [sheet'] ∧
              sheet'.withoutEnds = sheet.withoutEnds := by
  obtain ⟨cs, rfl, fresh, right⟩ := Document.document_of_load load
  obtain ⟨w, run, groups⟩ := Document.run_of_evaluateTo run
  obtain ⟨children, content, -, -, -, pass⟩ :=
    Document.flat_of_run depth o notes fresh right run
  refine ⟨_, content, fun before after laid layout => ?_⟩
  obtain ⟨left, outcome, one⟩ := Document.layAll_of_layOut layout
  have flat := pass before left (groups ▸ outcome)
  obtain ⟨left', inert, alike⟩ :=
    @Layout.repeated_layAll true .root left flat fun _ _ => rfl
  refine ⟨_, one, fun groups before' => ?_⟩
  obtain ⟨groups', after', layout'⟩ :=
    @Document.layOut_of_layAll before' (Info.apart {}) _ _ groups
      (inert { groups, log := before' }).1
  exact ⟨_, after', _, layout', rfl,
    congrArg (Node.plain { Info.apart {} with groupEnd := false } .root) alike⟩

/-- A query and a buffer with a query in it, both inside a rule, and a flush in a query. -/
theorem Document.layOut_layOut_queries :
    let text := "r \x7b @buffer k \x7b c: d; @media y \x7b e: f; \x7d \x7d " ++
      "@media x \x7b g: h; \x7d \x7d @media z \x7b @flush k; \x7d"
    ∃ tree log evaluated notes root laid after sheet,
      Document.load {} text #[] = (.ok tree, log) ∧
      Document.evaluateTo 9 {} { content := tree } log = (.ok evaluated, notes) ∧
      evaluated.content = [root] ∧
      Document.layOut { content := root, groups := evaluated.groups } notes =
        (.ok laid, after) ∧
      laid.content = [sheet] ∧ ∃ again after' sheet',
        Document.layOut { content := sheet, groups := laid.groups } after = (.ok again, after') ∧
        again.content = [sheet'] ∧ sheet'.withoutEnds = sheet.withoutEnds := by
  intro text
  have compiles : ((Document.load {} text >>= Document.flatTo 9 {}) #[]).1.isOk := by
    decide +kernel
  rcases e : (Document.load {} text >>= Document.flatTo 9 {}) #[] with ⟨outcome, after⟩
  rw [e] at compiles
  cases outcome with
  | error f => cases compiles
  | ok nodes =>
    obtain ⟨tree, log, load, flat⟩ := Logged.bind_eq_ok e
    obtain ⟨evaluated, notes, run, layout⟩ := Document.stages_of_flatTo flat
    obtain ⟨root, content, keeps⟩ := layOut_layOut load run
    obtain ⟨laid, lays, -⟩ := layout root content
    obtain ⟨sheet, one, again⟩ := keeps notes after laid lays
    exact ⟨tree, log, evaluated, notes, root, laid, after, sheet, load, run, content, lays, one,
      again laid.groups after⟩

end Stylesheet
