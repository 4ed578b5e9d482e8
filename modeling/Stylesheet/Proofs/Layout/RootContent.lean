/-
# Declarations at the root

A declaration has to be inside something.  The nesting rules see to it in the tree that is
read, and a flush at the root refuses groups with declarations in them.  Between the two,
an inclusion puts what a mixin holds where the inclusion stands.  So no declaration is ever
directly at the root of a document if no mixin holds one that is inside nothing else
(`Document.declarations_inside`); buffers, flushes and control directives bring none there.

An inclusion at the root does bring one there if the mixin holds one
(`Document.declaration_at_root`): neither of the two places looks at it.
-/

import Stylesheet.Proofs.Evaluation.Expansion
import Stylesheet.Proofs.Layout.Shape
import Stylesheet.Proofs.Grammar.Bare
import Stylesheet.Proofs.Stages

namespace Stylesheet

namespace Node

mutual

/-- Whether a declaration stands where the node does, inside control directives only. -/
def loose : Node → Bool
  | plain _ h cs => h.kind == .declaration || h.kind.isControl && looseAll cs
  | cond _ _ cs o => looseAll cs || looseOption o

/-- Whether a declaration stands where some nodes do. -/
def looseAll : List Node → Bool
  | [] => false
  | n :: ns => n.loose || looseAll ns

/-- Whether a declaration stands where a clause does. -/
def looseOption : Option Node → Bool
  | none => false
  | some n => n.loose

end

/-- No declaration stands where some nodes do if none does where each of them does. -/
theorem looseAll_eq_false {ns : List Node} : looseAll ns = false ↔ ∀ n ∈ ns, n.loose = false := by
  induction ns with
  | nil => simp [looseAll]
  | cons n ns ih => simp [looseAll, ih]

/-- No declaration stands where a clause does if it has none, or there is no clause. -/
theorem looseOption_eq_false {o : Option Node} :
    looseOption o = false ↔ ∀ n ∈ o, n.loose = false := by
  cases o <;> simp [looseOption]

/-- A declaration stands where two lists do if one does where either list does. -/
theorem looseAll_append {ns ms : List Node} :
    looseAll (ns ++ ms) = (looseAll ns || looseAll ms) := by
  induction ns with
  | nil => rfl
  | cons n ns ih => rw [List.cons_append, looseAll, looseAll, ih, Bool.or_assoc]

/-- Nodes expand to declarations only if one stands where they do or is loose in a mixin. -/
theorem Expands.declaration_not_mem {bodies : List Node → Prop} {ns ms : List Node}
    (h : Expands bodies ns ms) (mixins : ∀ b, bodies b → looseAll b = false)
    (outside : looseAll ns = false) : .declaration ∉ ms.map kind := by
  induction h with
  | nil => exact List.not_mem_nil
  | append first rest ih ih' =>
    rw [looseAll_append, Bool.or_eq_false_iff] at outside
    rw [List.map_append, List.mem_append, not_or]
    exact ⟨ih outside.1, ih' outside.2⟩
  | gone => exact List.not_mem_nil
  | leaf resolves | block resolves =>
    rw [looseAll, loose, Bool.or_eq_false_iff, Bool.or_eq_false_iff, beq_eq_false_iff_ne] at outside
    rw [List.map_singleton, List.mem_singleton, kind, resolves.kind_eq]
    exact outside.1.1.symm
  | again loop before round ih ih' =>
    rw [List.map_append, List.mem_append, not_or]
    refine ⟨ih outside, ih' ?_⟩
    rw [looseAll, loose, loop, Bool.true_and, Bool.or_eq_false_iff, Bool.or_eq_false_iff] at outside
    exact outside.1.2
  | clause holds ih =>
    rw [looseAll, loose, Bool.or_eq_false_iff, Bool.or_eq_false_iff] at outside
    exact ih outside.1.1
  | «otherwise» fails ih =>
    rw [looseAll, loose, Bool.or_eq_false_iff, Bool.or_eq_false_iff] at outside
    refine ih ?_
    rw [looseAll, Bool.or_eq_false_iff]
    exact ⟨outside.1.2, rfl⟩
  | inclusion known inner ih => exact ih (mixins _ known)

end Node

namespace Nesting

open Node

/-- No declaration may stand at the root, whatever control directives it is inside. -/
theorem passes_loose : Passes fun around n => around.head? = some .root → n.loose = false where
  plain := by
    intro around info head cs place _ inner atRoot
    obtain ⟨outer, rfl⟩ := List.head?_eq_some_iff.1 atRoot
    have declaration : head.kind ≠ .declaration := by
      intro e
      rw [checkPlace, kind, e] at place
      cases place
    rw [loose, beq_false_of_ne declaration, Bool.false_or]
    unfold within at inner
    split at inner
    · rw [looseAll_eq_false.2 fun n hn => inner n hn rfl, Bool.and_false]
    · rename_i control
      rw [Bool.not_eq_true] at control
      rw [control, Bool.false_and]
  cond := by
    intro around info test cs o inner clause atRoot
    rw [loose, Bool.or_eq_false_iff]
    exact ⟨looseAll_eq_false.2 fun n hn => inner n hn atRoot,
      looseOption_eq_false.2 fun n hn => clause n hn atRoot⟩

/-- The nesting lets no declaration stand in the document. -/
theorem looseAll_of_checkAll {outer : List Kind} {ns : List Node}
    (h : checkAll (.root :: outer) ns = .ok ()) : looseAll ns = false :=
  looseAll_eq_false.2 fun n hn => passes_loose.of_checkAll h n hn rfl

end Nesting

namespace Layout

/-- What a block and what follows it leave at the root. -/
theorem declaration_not_mem_before {own : Node} {others : List Node}
    (block : own.kind ≠ .declaration) (rest : .declaration ∉ others.map Node.kind) :
    .declaration ∉ (Laid.before .root own others).left.map Node.kind := by
  unfold Laid.before
  split
  · rw [kinds_markLast]
    exact rest
  · rw [kinds_markLast, List.map_cons, List.mem_cons, not_or]
    exact ⟨block.symm, rest⟩

/-- What is finished at the root leaves no declaration there unless it is one. -/
theorem declaration_not_mem_finish {info : Info} {head : Head} {laid : List Node}
    (h : head.kind ≠ .declaration) :
    .declaration ∉ (finish .root info head laid).left.map Node.kind := by
  cases head with
  | rule =>
    refine declaration_not_mem_before h ?_
    rintro mem
    obtain ⟨n, hn, e⟩ := List.mem_map.1 mem
    have follows := (List.mem_filter.1 hn).2
    rw [staysInRule, e] at follows
    cases follows
  | media query resolved =>
    refine declaration_not_mem_before h ?_
    rintro mem
    obtain ⟨n, hn, e⟩ := List.mem_map.1 mem
    obtain ⟨m, hm, rfl⟩ := List.mem_map.1 hn
    obtain ⟨info, query, inner, cs, rfl⟩ := eq_media_of_kind (List.mem_filter.1 hm).2
    cases e
  | supports => exact declaration_not_mem_before h List.not_mem_nil
  | buffer => exact List.not_mem_nil
  | _ => exact fun mem => h (List.mem_singleton.1 mem).symm

/-- A flush at the root refuses groups with declarations in them. -/
theorem declaration_not_mem_flush {info : Info} {name : BufferName} {captured : List GroupId}
    {s : State} {left : List Node}
    (h : (layFlush .root info name captured).outcome s = .ok left) :
    .declaration ∉ left.map Node.kind := by
  obtain ⟨accepted, rfl⟩ := layFlush_root_eq_ok h
  rw [kinds_markLast]
  rintro mem
  obtain ⟨n, hn, e⟩ := List.mem_map.1 mem
  exact List.any_eq_false.1 accepted n hn (beq_iff_eq.2 e)

/-- What is no declaration leaves none in the document. -/
theorem declaration_not_mem_layNode {n : Node} (h : n.kind ≠ .declaration) {s : State}
    {laid : Laid} (o : (layNode .root n).outcome s = .ok laid) :
    .declaration ∉ laid.left.map Node.kind := by
  match n with
  | .plain info head cs =>
    cases leaf : isLeaf head with
    | false =>
      obtain ⟨content, -, rfl⟩ := layNode_eq_ok leaf o
      exact declaration_not_mem_finish h
    | true =>
      obtain ⟨own, left⟩ := laid
      have o : (layLeaf .root info head cs).outcome s = .ok left := layNode_leaf_eq_ok leaf o
      cases head with
      | comment =>
        cases o
        exact fun mem => h (List.mem_singleton.1 mem).symm
      | extend =>
        obtain ⟨-, -, o, -⟩ := Lay.bind_eq_ok o
        cases o
        exact List.not_mem_nil
      | flush name captured => exact declaration_not_mem_flush o
      | declaration => exact absurd rfl h
      | _ => cases leaf
  | .cond info test cs o' =>
    rw [layNode] at o
    obtain ⟨inner, -, rest, -⟩ := Lay.bind_eq_ok o
    obtain ⟨clause, -, rest, -⟩ := Lay.bind_eq_ok rest
    rw [settle_eq_ok rest]
    exact fun mem => h (List.mem_singleton.1 mem).symm

/-- Nodes that are no declarations leave none at the root. -/
theorem declaration_not_mem_layAll {ns left : List Node} (h : .declaration ∉ ns.map Node.kind)
    {s : State} (o : (layAll .root ns).outcome s = .ok left) :
    .declaration ∉ left.map Node.kind := by
  induction ns generalizing s left with
  | nil =>
    rw [layAll] at o
    cases o
    exact List.not_mem_nil
  | cons n ns ih =>
    rw [List.map_cons, List.mem_cons, not_or] at h
    obtain ⟨first, others, of, oo, rfl⟩ := layAll_cons_eq_ok o
    rw [List.map_append, List.mem_append, not_or]
    exact ⟨declaration_not_mem_layNode (Ne.symm h.1) of, ih h.2 oo⟩

end Layout

/-- A tree that has been loaded is a document whose nesting is right. -/
theorem Document.document_of_load {o : Options} {text : String} {tree : Node} {log log' : Log}
    (h : Document.load o text log = (.ok tree, log')) :
    ∃ cs, tree = .plain {} .root cs ∧ Node.freshAll true cs ∧ Nesting.check tree = .ok () := by
  obtain ⟨read, notes, reads, checks⟩ := Logged.bind_eq_ok h
  obtain ⟨cs, rfl, fresh⟩ := Document.bare_of_readIn reads
  unfold Document.checked at checks
  cases right : Nesting.check (.plain {} .root cs) with
  | error d =>
    rw [right] at checks
    cases checks
  | ok =>
    rw [right] at checks
    cases checks
    exact ⟨cs, rfl, fresh, right⟩

/-- **A document has declarations at its root only from mixins.**  Take a text that can be
read, with its nesting right, evaluated and laid out, in which no mixin holds a declaration
that is inside nothing but control directives.  Whatever inclusions, buffers, flushes and
control directives are in it, no declaration is directly in the document that comes out. -/
theorem Document.declarations_inside {depth : Nat} {o : Options} {text : String} {tree : Node}
    {nodes : List Node} {log log' notes notes' : Log}
    (load : Document.load o text log = (.ok tree, log'))
    (flat : Document.flatTo depth o tree notes = (.ok nodes, notes'))
    (mixins : ∀ body ∈ tree.mixinBodies, Node.looseAll body = false) :
    ∃ info children, nodes = [.plain info .root children] ∧
      .declaration ∉ children.map Node.kind := by
  obtain ⟨cs, rfl, -, right⟩ := Document.document_of_load load
  obtain ⟨evaluated, between, run, layout⟩ := Document.stages_of_flatTo flat
  obtain ⟨w, run, groups⟩ := Document.run_of_evaluateTo run
  obtain ⟨children, content, expands⟩ := Evaluation.expands_of_run depth o notes run
  obtain ⟨laid, lays, rfl⟩ := layout _ content
  obtain ⟨left, outcome, flat⟩ := Document.layAll_of_layOut lays
  have outside : Node.looseAll cs = false := by
    rw [Nesting.check, Nesting.checkIn] at right
    exact Nesting.looseAll_of_checkAll (Nesting.bind_eq_ok right).2
  refine ⟨_, left, flat, ?_⟩
  exact Layout.declaration_not_mem_layAll
    (expands.declaration_not_mem (fun b hb => mixins b hb) outside) outcome

/-- A mixin with a query in it, included at the root. -/
theorem Document.declarations_inside_query :
    ∃ tree log nodes notes, Document.load {} "@mixin m { @media x { a: b; } } @include m;" #[] =
        (.ok tree, log) ∧
      Document.flatTo 9 {} tree log = (.ok nodes, notes) ∧
      (∀ body ∈ tree.mixinBodies, Node.looseAll body = false) ∧
      ∃ info children, nodes = [.plain info .root children] ∧
        .declaration ∉ children.map Node.kind := by
  have compiles : (match Document.load {} "@mixin m { @media x { a: b; } } @include m;" #[] with
      | (.ok tree, log) => ((Document.flatTo 9 {} tree log).1.isOk,
          tree.mixinBodies.map Node.looseAll)
      | _ => (false, [])) = (true, [false]) := by decide +kernel
  rcases load : Document.load {} "@mixin m { @media x { a: b; } } @include m;" #[] with
    ⟨outcome, log⟩
  rw [load] at compiles
  cases outcome with
  | error e => cases compiles
  | ok tree =>
    obtain ⟨flattens, inside⟩ := Prod.mk.injEq .. ▸ compiles
    have mixins : ∀ body ∈ tree.mixinBodies, Node.looseAll body = false := by
      intro body hb
      have mem := List.mem_map_of_mem (f := Node.looseAll) hb
      rw [inside, List.mem_singleton] at mem
      exact mem
    rcases flat : Document.flatTo 9 {} tree log with ⟨outcome, notes⟩
    rw [flat] at flattens
    cases outcome with
    | error e => cases flattens
    | ok nodes =>
      exact ⟨tree, log, nodes, notes, rfl, flat, mixins, declarations_inside load flat mixins⟩

/-- **An inclusion at the root brings a declaration there** if the mixin holds one: what is
written is a declaration that is inside nothing. -/
theorem Document.declaration_at_root :
    (match Document.load {} "@mixin m { color: red; } @include m;" #[] with
      | (.ok tree, log) =>
        match Document.flatTo Evaluation.depth {} tree log with
        | (.ok [.plain _ .root children], _) => children.map Node.kind
        | _ => []
      | _ => []) = [.declaration] ∧
    (compile {} "@mixin m { color: red; } @include m;" #[]).1.toOption =
      some "color: red;\n" := by
  decide +kernel

end Stylesheet
