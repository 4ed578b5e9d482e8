/-
# Groups and statements

What a rule, a query, a condition or a flush leaves in a document is a group: its last node
ends it, in any case, and no other node of it does where nothing has been moved that ended a
group before (`Breaks`).  So the text of a document is what its statements leave, one after
the other, with a blank line after each group but the last (`Document.groups_layOut`), and
without one inside such a group.

Two queries inside a query are the smallest example of a statement that leaves two groups
(`Document.queries_in_query`).
-/

import Stylesheet.Css.Item
import Stylesheet.Proofs.Layout.AtOnce
import Stylesheet.Proofs.Layout.Bounded
import Mathlib.Data.List.Forall2

namespace Stylesheet

/-- Whether what a statement of this kind leaves in a document is a group. -/
def Kind.endsGroup : Kind → Bool
  | .rule | .media | .supports | .flush => true
  | _ => false

namespace Layout

open Node

variable {around : Around} {groups : GroupId → Bool → Breaks} {n : Node} {ns : List Node}
  {s : State} {part : Laid} {parts : List Laid}

/-! ### The last node of a group -/

/-- The last of some marked nodes ends a group. -/
theorem groupEnd_of_marked (h : Marked ns) : ∀ n ∈ ns.getLast?, n.info.groupEnd := by
  obtain rfl | ⟨init, n, rfl⟩ := ns.eq_nil_or_concat
  · exact nofun
  · rw [List.concat_eq_append] at h ⊢
    rw [Marked, changeLast_concat] at h
    obtain ⟨-, same⟩ := List.append_inj' h rfl
    obtain same : n.markGroupEnd true = n := List.singleton_inj.1 same
    rintro m hm
    cases (List.getLast?_concat ..).symm.trans hm
    rw [← same]
    cases n <;> rfl

/-- A flush at the root marks its last copy. -/
theorem marked_flush {info : Info} {name : BufferName} {captured : List GroupId}
    {cs : List Node}
    (o : (layNode .root (.plain info (.flush name captured) cs)).outcome s = .ok part) :
    Marked part.left := by
  obtain ⟨-, copies⟩ := layFlush_root_eq_ok (layNode_leaf_eq_ok rfl o)
  rw [copies]
  exact marked_markLast _

/-- **The last node that a statement leaves ends a group**, if there is one. -/
theorem groupEnd_layNode (ends : n.kind.endsGroup) (o : (layNode .root n).outcome s = .ok part) :
    ∀ m ∈ part.left.getLast?, m.info.groupEnd := by
  match n with
  | .plain info head cs =>
    cases head with
    | rule | media | supports => exact groupEnd_of_marked (marked_layNode rfl o)
    | flush => exact groupEnd_of_marked (marked_flush o)
    | _ => cases ends
  | .cond .. => cases ends

/-- Everything else ends no group. -/
theorem quiet_of_kind (other : n.kind.endsGroup = false) :
    (n.breaks groups false false).quiet := by
  match n with
  | .plain info head cs =>
    cases head with
    | rule | media | supports | flush => cases other
    | buffer | extend => rfl
    | _ => exact Breaks.quiet_ofKind ..
  | .cond .. => exact Breaks.quiet_ofKind ..

/-- All nodes are looked at. -/
theorem groupEnds_all (ns : List Node) : groupEnds false ns = ns.map (·.info.groupEnd) := by
  have all : ns.filter (fun n => Breaks.considers false n.kind) = ns :=
    List.filter_eq_self.2 fun _ _ => rfl
  rw [groupEnds, all]

/-- Nodes within bounds of which none but the last may end a group. -/
theorem pairwise_of_allows {b : Breaks} (h : b.Allows (groupEnds false ns))
    (bound : b ≠ .anywhere) :
    ns.Pairwise fun n _ => n.info.groupEnd = false := by
  have free : (groupEnds false ns).Pairwise fun e _ => e = false := by
    cases b with
    | absent =>
      rw [show groupEnds false ns = [] from h]
      exact .nil
    | nowhere => exact List.pairwise_of_forall_mem_list fun e he _ _ => h e he
    | last => exact h
    | anywhere => exact absurd rfl bound
  rw [groupEnds_all, List.pairwise_map] at free
  exact free

/-- What each of some nodes leaves is what it leaves in some state. -/
theorem outcome_of_mapM (h : (ns.mapM (layNode around)).outcome s = .ok parts) :
    List.Forall₂ (fun n part => ∃ s, (layNode around n).outcome s = .ok part) ns parts := by
  induction ns generalizing s parts with
  | nil =>
    cases h
    exact .nil
  | cons n ns ih =>
    rw [List.mapM_cons] at h
    obtain ⟨part, first, rest, -⟩ := Lay.bind_eq_ok h
    obtain ⟨others, tail, done, -⟩ := Lay.bind_eq_ok rest
    cases done
    exact .cons ⟨_, first⟩ (ih tail)

end Layout

namespace Css

variable {style : Style}

/-! ### Blank lines -/

/-- A blank line comes after what ends a group, if more follows. -/
theorem separate_cons (p : Bool × List Item) {others : List (Bool × List Item)}
    (some' : others ≠ []) :
    separate (p :: others) = p.2 ++ (if p.1 then [.blank] else []) ++ separate others := by
  cases others with
  | nil => exact absurd rfl some'
  | cons => rfl

/-- Items after others: there is a blank line between them if the last of the first ends a
group. -/
theorem separate_concat (first : List (Bool × List Item)) (p : Bool × List Item)
    {others : List (Bool × List Item)} (some' : others ≠ []) :
    separate (first ++ [p] ++ others) =
      separate (first ++ [p]) ++ (if p.1 then [.blank] else []) ++ separate others := by
  induction first with
  | nil => exact separate_cons p some'
  | cons q first ih =>
    have one : first ++ [p] ≠ [] := List.append_ne_nil_of_right_ne_nil _ (List.cons_ne_nil _ _)
    have all : first ++ [p] ++ others ≠ [] := List.append_ne_nil_of_right_ne_nil _ some'
    rw [List.cons_append, List.cons_append, separate_cons q all, ih, separate_cons q one]
    simp only [List.append_assoc]

/-- The items of some nodes, one by one. -/
theorem itemsByChild_eq_map (style : Style) (ns : List Node) :
    itemsByChild style ns = ns.map fun n => (n.info.groupEnd, itemsOf style n) := by
  induction ns with
  | nil => rfl
  | cons n ns ih => rw [itemsByChild, ih, List.map_cons]

/-- Nodes of which none but the last ends a group are written without blank lines. -/
theorem itemsOfDocument_of_pairwise {ns : List Node}
    (h : ns.Pairwise fun n _ => n.info.groupEnd = false) :
    itemsOfDocument style ns = itemsOfAll style ns := by
  unfold itemsOfDocument
  induction h with
  | nil => rfl
  | @cons n ns free _ ih =>
    cases ns with
    | nil => exact (List.append_nil _).symm
    | cons m ns =>
      have others : itemsByChild style (m :: ns) ≠ [] := List.cons_ne_nil _ _
      rw [itemsByChild, separate_cons _ others, ih, free m List.mem_cons_self]
      show itemsOf style n ++ [] ++ _ = _
      rw [List.append_nil, ← itemsOfAll]

/-- **A document is written part by part**, with a blank line after every part that ends a
group, except the last one. -/
theorem itemsOfDocument_flatMap {parts : List (Bool × List Node)}
    (some' : ∀ p ∈ parts, p.2 ≠ [])
    (ends : ∀ p ∈ parts, ∀ n ∈ p.2.getLast?, n.info.groupEnd = p.1) :
    itemsOfDocument style (parts.flatMap Prod.snd) =
      separate (parts.map fun p => (p.1, itemsOfDocument style p.2)) := by
  induction parts with
  | nil => rfl
  | cons p parts ih =>
    have rest := ih (fun q hq => some' q (List.mem_cons_of_mem p hq))
      fun q hq => ends q (List.mem_cons_of_mem p hq)
    cases parts with
    | nil => simp [separate]
    | cons q parts =>
      have more : (q :: parts).flatMap Prod.snd ≠ [] := fun e =>
        some' q (List.mem_cons_of_mem p List.mem_cons_self)
          (List.flatMap_eq_nil_iff.1 e q List.mem_cons_self)
      obtain none' | ⟨init, n, whole⟩ := p.2.eq_nil_or_concat
      · exact absurd none' (some' p List.mem_cons_self)
      · rw [List.concat_eq_append] at whole
        have last : n.info.groupEnd = p.1 := by
          refine ends p List.mem_cons_self n ?_
          rw [whole]
          exact List.getLast?_concat ..
        rw [List.map_cons, separate_cons _ (by exact List.cons_ne_nil _ _), ← rest,
          List.flatMap_cons, whole]
        simp only [itemsOfDocument, itemsByChild_eq_map, List.map_append, List.map_cons,
          List.map_nil, last]
        exact separate_concat _ _ fun e => more (List.map_eq_nil_iff.1 e)

end Css

/-- What a statement has left is not there, or ends a group if the statement does. -/
theorem Layout.groupEnd_eq {groups : GroupId → Bool → Breaks} {n : Node} {s : Layout.State}
    {part : Layout.Laid} (o : (Layout.layNode .root n).outcome s = .ok part)
    (bounded : Layout.Bounded (fun queries => n.breaks groups false queries) part.left) :
    ∀ m ∈ part.left.getLast?, m.info.groupEnd = n.kind.endsGroup := by
  intro m hm
  cases ends : n.kind.endsGroup with
  | true => exact Layout.groupEnd_layNode ends o m hm
  | false =>
    have quiet : (n.breaks groups false false).quiet := Layout.quiet_of_kind ends
    have allows := bounded.allows false
    have mem : m.info.groupEnd ∈ Node.groupEnds false part.left := by
      rw [Layout.groupEnds_all]
      exact List.mem_map_of_mem (List.mem_of_getLast? hm)
    cases e : n.breaks groups false false with
    | absent =>
      rw [e] at allows
      rw [show Node.groupEnds false part.left = [] from allows] at mem
      exact absurd mem List.not_mem_nil
    | nowhere =>
      rw [e] at allows
      exact allows _ mem
    | last | anywhere =>
      rw [e] at quiet
      cases quiet

/-- What statements have left, without those that have left nothing. -/
theorem Layout.flatMap_left {ns : List Node} {parts : List Layout.Laid}
    (same : ns.length = parts.length) :
    (((ns.zip parts).filter fun p => !p.2.left.isEmpty).map fun p =>
        (p.1.kind.endsGroup, p.2.left)).flatMap Prod.snd = parts.flatMap Layout.Laid.left := by
  induction ns generalizing parts with
  | nil =>
    obtain rfl := List.eq_nil_of_length_eq_zero same.symm
    rfl
  | cons n ns ih =>
    cases parts with
    | nil => cases same
    | cons part parts =>
      have rest := ih (Nat.succ.inj same)
      rw [List.zip_cons_cons, List.filter_cons, List.flatMap_cons]
      split
      · rw [List.map_cons, List.flatMap_cons, rest]
      · rename_i empty
        have none' : part.left = [] := by simpa using empty
        rw [rest, none', List.nil_append]

/-- Nothing in a document that has been loaded ends a group. -/
theorem Document.unended_of_load {o : Options} {text : String} {tree : Node} {log log' : Log}
    (h : Document.load o text log = (.ok tree, log')) : tree.Unended := by
  obtain ⟨read, notes, reads, checks⟩ := Logged.bind_eq_ok h
  unfold Document.checked at checks
  cases right : Nesting.check read with
  | error d =>
    rw [right] at checks
    cases checks
  | ok =>
    rw [right] at checks
    cases checks
    exact Document.unended_of_readIn reads

/-- **A statement leaves one group.**  Take a document that has not been evaluated, with nothing
inside nodes that have no body and no end of a group in it, as every document is that is read,
whose nesting is right, and what an evaluation makes of it.  That is one tree; and if it can be
laid out, it becomes one tree, of what its statements have left one after the other.  It is
written statement by statement, with a blank line after each that is a rule, a query, a
condition or a flush, if it has left anything and others follow.

The last node that such a statement leaves ends a group, and no other does, so that there is
no blank line inside, unless nodes have been moved out of a query or a buffer that ended groups
there already: what is known of the groups excludes that (`Node.breaks`). -/
theorem Document.groups_layOut (depth : Nat) (options : Options) {info : Info} {cs : List Node}
    {log log' : Log} {evaluated : Captured (List Node)} (fresh : Node.freshAll true cs)
    (nesting : Nesting.check (.plain info .root cs) = .ok ())
    (unended : (Node.plain info .root cs).Unended)
    (run : Document.evaluateTo depth options { content := .plain info .root cs } log =
      (.ok evaluated, log')) :
    ∃ root, evaluated.content = [root] ∧
      ∀ (notes notes' : Log) (laid : Captured (List Node)),
        Document.layOut { content := root, groups := evaluated.groups } notes =
          (.ok laid, notes') →
        ∃ sheet parts, laid.content = [sheet] ∧
          (root.children.mapM (Layout.layNode .root)).outcome
              { groups := evaluated.groups, log := notes } = .ok parts ∧
          sheet.children = parts.flatMap Layout.Laid.left ∧
          (∀ style, Css.itemsOfDocument style sheet.children =
            Css.separate (((root.children.zip parts).filter fun p => !p.2.left.isEmpty).map fun p =>
              (p.1.kind.endsGroup, Css.itemsOfDocument style p.2.left))) ∧
          ∀ p ∈ root.children.zip parts, p.1.kind.endsGroup →
            (∀ n ∈ p.2.left.getLast?, n.info.groupEnd) ∧
            ∀ groups, Node.Explains groups (root.bodies none) →
              p.1.breaks groups false false ≠ .anywhere →
                p.2.left.Pairwise (fun n _ => n.info.groupEnd = false) ∧
                ∀ style, Css.itemsOfDocument style p.2.left = Css.itemsOfAll style p.2.left := by
  obtain ⟨w, run, same⟩ := Document.run_of_evaluateTo run
  obtain ⟨children, content, settled, ordered, bound⟩ :=
    Document.ordered_of_run true depth options log fresh nesting run
  have free := Evaluation.unended_of_run unended run
  rw [content, List.forall_mem_singleton, Node.unended_plain] at free
  refine ⟨_, content, fun notes notes' laid layout => ?_⟩
  obtain ⟨left, outcome, one⟩ := Document.layAll_of_layOut layout
  rw [Layout.layAll_eq_mapM] at outcome
  obtain ⟨parts, each, done, -⟩ := Layout.Lay.bind_eq_ok outcome
  cases done
  have leaves := Layout.outcome_of_mapM each
  have within (groups : GroupId → Bool → Breaks)
      (explained : Node.Explains groups (Node.bodiesAll none children)) :
      List.Forall₂ (fun n part =>
        Layout.Bounded (fun queries => n.breaks groups false queries) part.left) children parts :=
    (@Layout.bounded_layEach groups [] .root rfl trivial children settled free.2 ordered explained
      { groups := evaluated.groups, log := notes } parts (fun g hg => absurd hg List.not_mem_nil)
      (same ▸ bound) each).2.2
  -- it is enough for the last nodes that nothing is said of any group
  have unknown := within (fun _ _ => .anywhere) fun _ _ _ => .inl rfl
  have last (p : Node × Layout.Laid) (hp : p ∈ children.zip parts) :
      ∀ n ∈ p.2.left.getLast?, n.info.groupEnd = p.1.kind.endsGroup := by
    obtain ⟨s, o⟩ := (List.forall₂_iff_zip.1 leaves).2 hp
    exact Layout.groupEnd_eq o ((List.forall₂_iff_zip.1 unknown).2 hp)
  refine ⟨_, parts, one, each, rfl, fun style => ?_, fun p hp ends => ⟨fun n hn => ?_, ?_⟩⟩
  · show Css.itemsOfDocument style (parts.flatMap Layout.Laid.left) = _
    rw [← Layout.flatMap_left leaves.length_eq, Css.itemsOfDocument_flatMap, List.map_map]
    · rfl
    · rintro _ hq
      obtain ⟨p, hp, rfl⟩ := List.mem_map.1 hq
      simpa using (List.mem_filter.1 hp).2
    · rintro _ hq
      obtain ⟨p, hp, rfl⟩ := List.mem_map.1 hq
      exact last p (List.mem_filter.1 hp).1
  · exact (last p hp n hn).trans ends
  · intro groups explained bounded
    have inside : Node.Explains groups (Node.bodiesAll none children) := fun b hb =>
      explained b (List.mem_append_left _ hb)
    have allows := ((List.forall₂_iff_zip.1 (within groups inside)).2 hp).allows false
    have free := Layout.pairwise_of_allows allows bounded
    exact ⟨free, fun style => Css.itemsOfDocument_of_pairwise free⟩

/-- A rule with a rule in it, a flush of a buffer that holds one rule, a query with one query in
it, and a condition. -/
theorem Document.groups_layOut_statements :
    let text := "@buffer k \x7b a \x7b b: c; \x7d \x7d p \x7b d: e; q \x7b f: g; \x7d \x7d " ++
      "@flush k; @media x \x7b h \x7b i: j; \x7d @media y \x7b l \x7b m: n; \x7d \x7d \x7d " ++
      "@supports z \x7b r \x7b s: t; \x7d u \x7b v: w; \x7d \x7d"
    ∃ cs log evaluated log' root laid notes sheet parts,
      Document.load {} text #[] = (.ok (.plain {} .root cs), log) ∧
      Document.evaluateTo 9 {} { content := .plain {} .root cs } #[] = (.ok evaluated, log') ∧
      evaluated.content = [root] ∧
      root.children.map (·.kind) = [.buffer, .rule, .flush, .media, .supports] ∧
      Document.layOut { content := root, groups := evaluated.groups } #[] = (.ok laid, notes) ∧
      laid.content = [sheet] ∧ sheet.children = parts.flatMap Layout.Laid.left ∧
      ∀ p ∈ root.children.zip parts, p.1.kind.endsGroup →
        (∀ n ∈ p.2.left.getLast?, n.info.groupEnd) ∧
          p.2.left.Pairwise fun n _ => n.info.groupEnd = false := by
  intro text
  -- the buffer holds one rule, and no query
  let groups : GroupId → Bool → Breaks := fun _ queries => if queries then .absent else .last
  have loads : (Document.load {} text #[]).1.toOption.any fun tree =>
      (Document.evaluateTo 9 {} { content := tree } #[]).1.toOption.any fun evaluated =>
        evaluated.content.all fun root =>
          decide (root.children.map (·.kind) = [.buffer, .rule, .flush, .media, .supports] ∧
            Node.Explains groups (root.bodies none) ∧
            ∀ n ∈ root.children, n.breaks groups false false ≠ .anywhere) &&
          (Document.layOut { content := root, groups := evaluated.groups } #[]).1.isOk := by
    decide +kernel
  rcases load : Document.load {} text #[] with ⟨outcome, log⟩
  rw [load] at loads
  cases outcome with
  | error e => simp [Except.toOption] at loads
  | ok tree =>
    have free := Document.unended_of_load load
    obtain ⟨cs, rfl, fresh, nesting⟩ := Document.document_of_load load
    rw [Except.toOption, Option.any_some] at loads
    rcases run : Document.evaluateTo 9 {} { content := .plain {} .root cs } #[] with
      ⟨outcome, log'⟩
    rw [run] at loads
    cases outcome with
    | error e => simp [Except.toOption] at loads
    | ok evaluated =>
      obtain ⟨root, content, keeps⟩ := groups_layOut 9 {} fresh nesting free run
      simp only [Except.toOption, Option.any_some, content, List.all_cons, List.all_nil,
        Bool.and_true, Bool.and_eq_true, decide_eq_true_eq] at loads
      obtain ⟨⟨kinds, explains, bounded⟩, lays⟩ := loads
      rcases layout : Document.layOut { content := root, groups := evaluated.groups } #[] with
        ⟨outcome, notes⟩
      rw [layout] at lays
      cases outcome with
      | error e => cases lays
      | ok laid =>
        obtain ⟨sheet, parts, one, -, whole, -, ends⟩ := keeps #[] notes laid layout
        refine ⟨cs, log, evaluated, log', root, laid, notes, sheet, parts, rfl, run, content,
          kinds, layout, one, whole, fun p hp group => ?_⟩
        obtain ⟨last, others⟩ := ends p hp group
        exact ⟨last, (others groups explains (bounded p.1 (List.of_mem_zip hp).1)).1⟩

/-- Two queries inside a query: each of them ends a group, and there is a blank line between
what the one statement has left. -/
theorem Document.queries_in_query :
    let text := "@media a \x7b @media b \x7b x \x7b p: q \x7d \x7d " ++
      "@media c \x7b x \x7b p: q \x7d \x7d \x7d"
    ∃ tree log evaluated root sheet first second,
      Document.load {} text #[] = (.ok tree, log) ∧
      (Document.evaluateTo 9 {} { content := tree } #[]).1 = .ok evaluated ∧
      evaluated.content = [root] ∧ root.children.map (·.kind) = [.media] ∧
      (Document.flatTo 9 {} tree #[]).1 = .ok [sheet] ∧ sheet.children = [first, second] ∧
      first.info.groupEnd ∧ second.info.groupEnd ∧
      Css.itemsOfDocument .expanded sheet.children =
        Css.itemsOf .expanded first ++ [.blank] ++ Css.itemsOf .expanded second := by
  intro text
  have loads : (Document.load {} text #[]).1.toOption.any fun tree =>
      decide ((Document.evaluateTo 9 {} { content := tree } #[]).1.toOption.map (fun evaluated =>
          evaluated.content.map fun root => root.children.map (·.kind)) = some [[.media]] ∧
        (Document.flatTo 9 {} tree #[]).1.toOption.map (fun nodes =>
          nodes.map fun sheet => sheet.children.map (·.info.groupEnd)) = some [[true, true]]) := by
    decide +kernel
  rcases load : Document.load {} text #[] with ⟨outcome, log⟩
  rw [load] at loads
  cases outcome with
  | error e => simp [Except.toOption] at loads
  | ok tree =>
    rw [Except.toOption, Option.any_some, decide_eq_true_eq] at loads
    obtain ⟨one, twice⟩ := loads
    cases e : (Document.evaluateTo 9 {} { content := tree } #[]).1 with
    | error f => simp [e, Except.toOption] at one
    | ok evaluated =>
      cases e' : (Document.flatTo 9 {} tree #[]).1 with
      | error f => simp [e', Except.toOption] at twice
      | ok nodes =>
        rw [e] at one
        rw [e'] at twice
        obtain ⟨root, content, kinds⟩ := List.map_eq_singleton_iff.1 (Option.some.inj one)
        obtain ⟨sheet, rfl, ends⟩ := List.map_eq_singleton_iff.1 (Option.some.inj twice)
        obtain ⟨first, others, whole, here, ends⟩ := List.map_eq_cons_iff.1 ends
        obtain ⟨second, rfl, there⟩ := List.map_eq_singleton_iff.1 ends
        refine ⟨tree, log, evaluated, root, sheet, first, second, rfl, e, content, kinds, e', whole,
          here, there, ?_⟩
        have blank : (if first.info.groupEnd then [Css.Item.blank] else []) = [.blank] :=
          if_pos here
        rw [whole]
        show _ ++ (if first.info.groupEnd then _ else _) ++ _ = _
        rw [blank]
        rfl

end Stylesheet
