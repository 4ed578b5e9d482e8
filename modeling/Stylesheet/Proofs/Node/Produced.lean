/-
# What an evaluated tree is made of

An evaluated tree holds nodes that are `Node.produced`: no control directive, no inclusion,
no definition and no silent comment.  Two more things are known of it from the way it was
made.  Its rules have selectors (`Node.selective`), since a rule without any is an error.
And a plain import is nowhere but directly in the document, since the nesting rules keep it
out of everything else, the bodies of mixins among them (`Node.sheetless`).
-/

import Stylesheet.Proofs.Node.Expansion

namespace Stylesheet

namespace Node

/-- Whether a node may be in an evaluated tree. -/
def produced : Node → Bool
  | plain _ (.comment _ silent) _ => !silent
  | n => [.root, .rule, .declaration, .directive, .media, .supports, .importSheet, .extend,
      .buffer, .flush].contains n.kind

/-- Whether a node has selectors if it is a rule. -/
def selective : Node → Bool
  | plain _ (.rule _ resolved) _ => resolved.any (!·.isEmpty)
  | _ => true

/-- Whether no plain import is in some trees. -/
def sheetless (ns : List Node) : Bool :=
  (nodesAll ns).all (·.kind != .importSheet)

mutual

/-- Whether a plain import is nowhere in a tree but in control directives, or is the tree. -/
def sheetsOutside : Node → Bool
  | plain _ h cs => if h.kind.isControl then sheetsOutsideAll cs else sheetless cs
  | cond _ _ cs o => sheetsOutsideAll cs && sheetsOutsideOption o

/-- Whether a plain import is nowhere in some trees but in control directives. -/
def sheetsOutsideAll : List Node → Bool
  | [] => true
  | n :: ns => n.sheetsOutside && sheetsOutsideAll ns

/-- Whether a plain import is nowhere in a clause but in control directives. -/
def sheetsOutsideOption : Option Node → Bool
  | none => true
  | some n => n.sheetsOutside

end

/-! ### Everything in a tree -/

/-- The nodes in two lists, one after the other. -/
theorem nodesAll_append (ns ms : List Node) : nodesAll (ns ++ ms) = nodesAll ns ++ nodesAll ms := by
  induction ns with
  | nil => rfl
  | cons n ns ih => rw [List.cons_append, nodesAll, nodesAll, ih, List.append_assoc]

/-- The nodes in a list of one node without clauses. -/
theorem nodesAll_plain (i : Info) (h : Head) (cs : List Node) :
    nodesAll [plain i h cs] = plain i h cs :: nodesAll cs := by
  rw [nodesAll, nodes, nodesAll, List.append_nil]

/-- The nodes in a list of one `@if`. -/
theorem nodesAll_cond (i : Info) (t : Option Expr) (cs : List Node) (o : Option Node) :
    nodesAll [cond i t cs o] = cond i t cs o :: (nodesAll cs ++ nodesOption o) := by
  rw [nodesAll, nodes, nodesAll, List.append_nil]

mutual

/-- An evaluated tree is made of what an evaluation produces. -/
theorem produced_of_settled {n : Node} (h : n.settled true) : ∀ m ∈ n.nodes, m.produced := by
  match n with
  | .plain i head cs =>
    intro m hm
    rw [nodes, List.mem_cons] at hm
    rcases hm with rfl | hm
    · simp only [settled, Bool.and_eq_true] at h
      cases head with
      | comment => exact h.1.1.1
      | assignment | forLoop | eachLoop | whileLoop | mixin | inclusion | function | result
      | debug | warn => cases h.1.1.1
      | _ => rfl
    · exact produced_of_settledAll (settledAll_of_settled h) m hm
  | .cond .. => cases h

/-- The nodes of a settled tree are of the kinds that are produced. -/
theorem produced_of_settledAll {ns : List Node} (h : settledAll true ns) :
    ∀ m ∈ nodesAll ns, m.produced := by
  match ns with
  | [] => exact fun m hm => nomatch hm
  | n :: ns =>
    rw [settledAll, Bool.and_eq_true] at h
    intro m hm
    rw [nodesAll, List.mem_append] at hm
    exact hm.elim (produced_of_settled h.1 m) (produced_of_settledAll h.2 m)

end

/-! ### Selectors -/

/-- A rule whose head has been resolved has selectors. -/
theorem selective_of_resolves {h h' : Head} (resolves : h.Resolves h') (i : Info)
    (cs : List Node) : (plain i h' cs).selective := by
  cases resolves with
  | rule selector old some' =>
    have there := List.isEmpty_eq_false_iff.2 some'
    rw [selective, Option.any_some, there]
    rfl
  | _ => rfl

/-- What is not gone into is empty in a tree where nothing is inside nodes without a body. -/
theorem nil_of_leaf {h h' : Head} (resolves : h.Resolves h') (leaf : h.entered = false)
    {cs : List Node} (suits : h.suits true cs) : cs = [] := by
  refine Head.nil_of_suits suits ?_
  cases resolves with
  | directive => exact leaf
  | rule | media | supports | buffer => cases leaf
  | _ => rfl

/-- **The rules that nodes expand to have selectors.** -/
theorem Expands.selective {bodies : List Node → Prop} {ns ms : List Node}
    (h : Expands bodies ns ms) (mixins : ∀ b, bodies b → freshAll true b)
    (fresh : freshAll true ns) : ∀ m ∈ nodesAll ms, m.selective := by
  induction h with
  | nil => exact fun m hm => nomatch hm
  | append first rest ih ih' =>
    rw [freshAll_append] at fresh
    intro m hm
    rw [nodesAll_append, List.mem_append] at hm
    exact hm.elim (ih fresh.1 m) (ih' fresh.2 m)
  | gone => exact fun m hm => nomatch hm
  | leaf resolves leaf =>
    simp only [freshAll, Node.fresh, Bool.and_eq_true] at fresh
    cases nil_of_leaf resolves leaf fresh.1.1.2
    intro m hm
    rw [nodesAll_plain, List.mem_cons] at hm
    rcases hm with rfl | hm
    · exact selective_of_resolves resolves _ _
    · cases hm
  | block resolves block inner ih =>
    simp only [freshAll, Node.fresh, Bool.and_eq_true] at fresh
    intro m hm
    rw [nodesAll_plain, List.mem_cons] at hm
    rcases hm with rfl | hm
    · exact selective_of_resolves resolves _ _
    · exact ih fresh.1.2 m hm
  | again loop before round ih ih' =>
    have inner := fresh
    simp only [freshAll, Node.fresh, Bool.and_eq_true] at inner
    intro m hm
    rw [nodesAll_append, List.mem_append] at hm
    exact hm.elim (ih fresh m) (ih' inner.1.2 m)
  | clause holds ih =>
    simp only [freshAll, Node.fresh, Bool.and_eq_true] at fresh
    exact ih fresh.1.1.2
  | «otherwise» fails ih =>
    simp only [freshAll, Node.fresh, freshOption, Bool.and_eq_true] at fresh
    refine ih ?_
    rw [freshAll, fresh.1.2]
    rfl
  | inclusion known inner ih => exact ih (mixins _ known)

/-! ### Plain imports -/

/-- Two lists have no plain import in them if each one has none. -/
theorem sheetless_append {ns ms : List Node} :
    sheetless (ns ++ ms) ↔ sheetless ns ∧ sheetless ms := by
  rw [sheetless, nodesAll_append, List.all_append, Bool.and_eq_true]
  rfl

/-- A list has no plain import if neither its first node nor the others have one. -/
theorem sheetless_cons {n : Node} {ns : List Node} :
    sheetless (n :: ns) ↔ sheetless [n] ∧ sheetless ns := by
  rw [← sheetless_append, List.singleton_append]

/-- A node without clauses has none if it is none and its children have none. -/
theorem sheetless_plain {i : Info} {h : Head} {cs : List Node} :
    sheetless [plain i h cs] ↔ h.kind ≠ .importSheet ∧ sheetless cs := by
  rw [sheetless, nodesAll_plain, List.all_cons, Bool.and_eq_true, bne_iff_ne]
  rfl

/-- An `@if` has none if its children and its clauses have none. -/
theorem sheetless_cond {i : Info} {t : Option Expr} {cs : List Node} {o : Option Node} :
    sheetless [cond i t cs o] ↔
      sheetless cs ∧ (nodesOption o).all (·.kind != .importSheet) := by
  rw [sheetless, nodesAll_cond, List.all_cons, List.all_append, Bool.and_eq_true,
    Bool.and_eq_true]
  exact and_iff_right rfl

/-- A list has none if none of its members has one. -/
theorem sheetless_iff {ns : List Node} : sheetless ns ↔ ∀ n ∈ ns, sheetless [n] := by
  induction ns with
  | nil => exact iff_of_true rfl (List.forall_mem_nil _)
  | cons n ns ih => rw [sheetless_cons, ih, List.forall_mem_cons]

/-- The clauses of an `@if` have none if none of them has one. -/
theorem sheetless_clause {o : Option Node} :
    (nodesOption o).all (·.kind != .importSheet) ↔ ∀ n ∈ o, sheetless [n] := by
  cases o <;> simp [nodesOption, sheetless, nodesAll]

/-- The plain imports of some nodes are outside if those of each one are. -/
theorem sheetsOutsideAll_iff {ns : List Node} :
    sheetsOutsideAll ns ↔ ∀ n ∈ ns, n.sheetsOutside := by
  induction ns with
  | nil => simp [sheetsOutsideAll]
  | cons n ns ih => simp [sheetsOutsideAll, ih]

/-- The plain imports of a clause are outside if there is none, or those of the clause are. -/
theorem sheetsOutsideOption_iff {o : Option Node} :
    sheetsOutsideOption o ↔ ∀ n ∈ o, n.sheetsOutside := by
  cases o <;> simp [sheetsOutsideOption]

/-- The plain imports of two lists are outside if those of each one are. -/
theorem sheetsOutsideAll_append {ns ms : List Node} :
    sheetsOutsideAll (ns ++ ms) ↔ sheetsOutsideAll ns ∧ sheetsOutsideAll ms := by
  simp only [sheetsOutsideAll_iff, List.mem_append, or_imp, forall_and]

section

variable {bodies : List Node → Prop} {ns ms : List Node}

/-- Nodes without imports expand to such nodes. -/
theorem Expands.sheetless (h : Expands bodies ns ms)
    (mixins : ∀ b, bodies b → sheetless b) (inside : Node.sheetless ns) :
    Node.sheetless ms := by
  induction h with
  | nil => rfl
  | append first rest ih ih' =>
    rw [sheetless_append] at inside ⊢
    exact ⟨ih inside.1, ih' inside.2⟩
  | gone => rfl
  | leaf resolves =>
    rw [sheetless_plain] at inside ⊢
    rwa [resolves.kind_eq]
  | block resolves block inner ih =>
    rw [sheetless_plain] at inside ⊢
    rw [resolves.kind_eq]
    exact ⟨inside.1, ih inside.2⟩
  | again loop before round ih ih' =>
    exact sheetless_append.2 ⟨ih inside, ih' (sheetless_plain.1 inside).2⟩
  | clause holds ih => exact ih (sheetless_cond.1 inside).1
  | «otherwise» fails ih =>
    refine ih ?_
    rw [Node.sheetless, nodesAll, nodesAll, List.append_nil]
    exact (sheetless_cond.1 inside).2
  | inclusion known inner ih => exact ih (mixins _ known)

/-- A tree without plain imports is none itself, and there is none in it. -/
theorem inside_of_sheetless {n : Node} (h : Node.sheetless [n]) :
    n.kind ≠ .importSheet ∧ Node.sheetless n.children := by
  match n with
  | .plain .. => exact sheetless_plain.1 h
  | .cond .. => exact ⟨nofun, (sheetless_cond.1 h).1⟩

/-- Among nodes without plain imports, none has one in it. -/
theorem sheetless_of_mem {n : Node} (h : Node.sheetless ns) (hn : n ∈ ns) :
    Node.sheetless n.children :=
  (inside_of_sheetless (sheetless_iff.1 h n hn)).2

/-- Among nodes without plain imports, none is one. -/
theorem kind_ne_of_sheetless {n : Node} (h : Node.sheetless ns) (hn : n ∈ ns) :
    n.kind ≠ .importSheet :=
  (inside_of_sheetless (sheetless_iff.1 h n hn)).1

/-- **Imports that are nowhere but outside stay there.** -/
theorem Expands.sheetsOutside (h : Expands bodies ns ms)
    (mixins : ∀ b, bodies b → Node.sheetless b) (outside : sheetsOutsideAll ns) :
    ∀ m ∈ ms, Node.sheetless m.children := by
  induction h with
  | nil => exact fun m hm => nomatch hm
  | append first rest ih ih' =>
    rw [sheetsOutsideAll_append] at outside
    intro m hm
    exact (List.mem_append.1 hm).elim (ih outside.1 m) (ih' outside.2 m)
  | gone => exact fun m hm => nomatch hm
  | leaf resolves =>
    rw [sheetsOutsideAll, Node.sheetsOutside, resolves.not_control] at outside
    rintro m hm
    cases List.mem_singleton.1 hm
    exact (Bool.and_eq_true_iff.1 outside).1
  | block resolves block inner =>
    rw [sheetsOutsideAll, Node.sheetsOutside, resolves.not_control] at outside
    rintro m hm
    cases List.mem_singleton.1 hm
    exact inner.sheetless mixins (Bool.and_eq_true_iff.1 outside).1
  | again loop before round ih ih' =>
    intro m hm
    refine (List.mem_append.1 hm).elim (ih outside m) (ih' ?_ m)
    rw [sheetsOutsideAll, Node.sheetsOutside, loop] at outside
    exact (Bool.and_eq_true_iff.1 outside).1
  | clause holds ih =>
    simp only [sheetsOutsideAll, Node.sheetsOutside, Bool.and_eq_true] at outside
    exact ih outside.1.1
  | «otherwise» fails ih =>
    simp only [sheetsOutsideAll, Node.sheetsOutside, sheetsOutsideOption,
      Bool.and_eq_true] at outside
    refine ih ?_
    rw [sheetsOutsideAll, outside.1.2]
    rfl
  | inclusion known inner =>
    exact fun m hm => sheetless_of_mem (inner.sheetless mixins (mixins _ known)) hm

end

end Node

namespace Nesting

open Node

/-- A plain import may be nowhere but at the root. -/
theorem kind_ne_of_checkPlace {p : Kind} {outer : List Kind} {n : Node} (inside : p ≠ .root)
    (h : checkPlace (p :: outer) n = .ok ()) : n.kind ≠ .importSheet := by
  intro e
  rw [checkPlace, e] at h
  cases rule : violation? p outer .importSheet (!n.children.isEmpty) with
  | some r =>
    rw [rule] at h
    cases h
  | none =>
    unfold violation? at rule
    extract_lets in' at rule
    split at rule
    · cases rule
    · dsimp only at rule
      split at rule
      · cases rule
      · cases rule

/-- The kinds around what is in a node that no document is inside. -/
theorem within_ne_root {p : Kind} {outer : List Kind} (inside : p ≠ .root) {h : Head}
    {cs : List Node} (suits : h.suits true cs) :
    ∃ q outer', within (p :: outer) h.kind = q :: outer' ∧ q ≠ .root := by
  unfold within
  split
  · exact ⟨p, outer, rfl, inside⟩
  · refine ⟨h.kind, p :: outer, rfl, ?_⟩
    rw [Head.suits, Bool.not_true, Bool.false_or, Bool.and_eq_true] at suits
    exact bne_iff_ne.1 suits.1

/-- Inside anything but the document there is no plain import. -/
theorem passes_sheetless : Passes fun around n =>
    (∃ p outer, around = p :: outer ∧ p ≠ .root) → n.fresh true → sheetless [n] where
  plain := by
    rintro around info head cs place - inner ⟨p, outer, rfl, inside⟩ fresh
    simp only [Node.fresh, Bool.and_eq_true] at fresh
    exact sheetless_plain.2 ⟨kind_ne_of_checkPlace inside place, sheetless_iff.2 fun n hn =>
      inner n hn (within_ne_root inside fresh.1.2) (freshAll_iff.1 fresh.2 n hn)⟩
  cond := by
    intro around info test cs o inner clause inside fresh
    simp only [Node.fresh, Bool.and_eq_true] at fresh
    exact sheetless_cond.2
      ⟨sheetless_iff.2 fun n hn => inner n hn inside (freshAll_iff.1 fresh.1.2 n hn),
        sheetless_clause.2 fun n hn => clause n hn inside (freshOption_iff.1 fresh.2 n hn)⟩

/-- The nesting lets no plain import stand inside anything but the document. -/
theorem sheetless_of_checkAll {p : Kind} {outer : List Kind} (inside : p ≠ .root)
    {ns : List Node} (fresh : freshAll true ns) (h : checkAll (p :: outer) ns = .ok ()) :
    sheetless ns :=
  sheetless_iff.2 fun n hn =>
    passes_sheetless.of_checkAll h n hn ⟨p, outer, rfl, inside⟩ (freshAll_iff.1 fresh n hn)

/-- Where control directives do not count, a plain import at the root is nowhere else. -/
theorem passes_sheetsOutside : Passes fun around n =>
    around.head? = some .root → n.fresh true → n.sheetsOutside where
  plain := by
    intro around info head cs _ content inner atRoot fresh
    simp only [Node.fresh, Bool.and_eq_true] at fresh
    obtain ⟨⟨-, suits⟩, fresh⟩ := fresh
    rw [sheetsOutside]
    unfold within at content inner
    split
    · rename_i control
      rw [if_pos control] at inner
      exact sheetsOutsideAll_iff.2 fun n hn =>
        inner n hn atRoot (freshAll_iff.1 fresh n hn)
    · rename_i control
      rw [if_neg control] at content
      rw [Head.suits, Bool.not_true, Bool.false_or, Bool.and_eq_true] at suits
      exact sheetless_of_checkAll (bne_iff_ne.1 suits.1) fresh content
  cond := by
    intro around info test cs o inner clause atRoot fresh
    simp only [Node.fresh, Bool.and_eq_true] at fresh
    rw [sheetsOutside, Bool.and_eq_true]
    exact ⟨sheetsOutsideAll_iff.2 fun n hn => inner n hn atRoot (freshAll_iff.1 fresh.1.2 n hn),
      sheetsOutsideOption_iff.2 fun n hn => clause n hn atRoot (freshOption_iff.1 fresh.2 n hn)⟩

/-- What is in the document has plain imports in its control directives at most, or is one. -/
theorem sheetsOutside_of_checkAll {outer : List Kind} {ns : List Node}
    (fresh : freshAll true ns) (h : checkAll (.root :: outer) ns = .ok ()) :
    sheetsOutsideAll ns :=
  sheetsOutsideAll_iff.2 fun n hn =>
    passes_sheetsOutside.of_checkAll h n hn rfl (freshAll_iff.1 fresh n hn)

/-- The mixins in a tree have been made of what the tree is made of, without imports. -/
theorem passes_mixinBodies : Passes fun _ n =>
    n.fresh true → ∀ b ∈ n.mixinBodies, freshAll true b ∧ sheetless b where
  plain := by
    intro around info head cs _ content inner fresh b hb
    have fresh := inner_of_fresh fresh
    have others (hb : b ∈ mixinBodiesAll cs) : freshAll true b ∧ sheetless b := by
      obtain ⟨n, hn, hb⟩ := mem_mixinBodiesAll.1 hb
      exact inner n hn (freshAll_iff.1 fresh n hn) b hb
    rw [mixinBodies] at hb
    split at hb
    · rename_i mixin
      rw [beq_iff_eq] at mixin
      rcases List.mem_cons.1 hb with rfl | hb
      · rw [mixin] at content
        have inside : Kind.mixin ≠ .root := by decide
        exact ⟨fresh, sheetless_of_checkAll inside fresh content⟩
      · exact others hb
    · exact others hb
  cond := by
    intro around info test cs o inner clause fresh b hb
    simp only [Node.fresh, Bool.and_eq_true] at fresh
    rw [mixinBodies, List.mem_append, mem_mixinBodiesAll, mem_mixinBodiesOption] at hb
    rcases hb with ⟨n, hn, hb⟩ | ⟨n, hn, hb⟩
    · exact inner n hn (freshAll_iff.1 fresh.1.2 n hn) b hb
    · exact clause n hn (freshOption_iff.1 fresh.2 n hn) b hb

/-- The nesting lets no plain import stand in a mixin. -/
theorem mixinBodies_of_checkAll {around : List Kind} {ns : List Node}
    (fresh : freshAll true ns) (h : checkAll around ns = .ok ()) :
    ∀ b ∈ mixinBodiesAll ns, freshAll true b ∧ sheetless b := by
  intro b hb
  obtain ⟨n, hn, hb⟩ := mem_mixinBodiesAll.1 hb
  exact passes_mixinBodies.of_checkAll h n hn (freshAll_iff.1 fresh n hn) b hb

end Nesting
end Stylesheet
