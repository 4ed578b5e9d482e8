/-
# The places of a document

`Node.places` lists the nodes in a tree with the nodes around each of them, a node before
its children and the children of an `@if` before its `@else` clause, which is where its
`@if` is.  Of the nodes around a place only the kinds of those that are no control
directives matter (`Node.visibleKinds`), and `Placement.Kept` says what a rule of nesting asks
of a node at a place.

The nesting check goes through just these places (`Nesting.checkIn_eq_forM`).  So a
document passes it exactly when every node in it keeps every rule, and otherwise it is
refused for the first node that does not, with the first rule that it breaks
(`Nesting.check_document`).
-/

import Stylesheet.Nesting

namespace Stylesheet

/-- A node of a tree with the nodes around it, innermost first. -/
structure Place where
  /-- The nodes around the node. -/
  around : List Node
  /-- The node. -/
  node : Node

/-- The kinds of some nodes, without the control directives. -/
def Node.visibleKinds (around : List Node) : List Kind :=
  (around.map Node.kind).filter fun k => !k.isControl

namespace Node

mutual

/-- A node and the nodes in it with what is around them, `around` being around the node. -/
def placesIn (around : List Node) : Node → List Place
  | plain i h cs => ⟨around, plain i h cs⟩ :: placesAll (plain i h cs :: around) cs
  | cond i t cs o =>
    ⟨around, cond i t cs o⟩ :: (placesAll (cond i t cs o :: around) cs ++ placesOption around o)

/-- Some nodes and the nodes in them. -/
def placesAll (around : List Node) : List Node → List Place
  | [] => []
  | n :: ns => placesIn around n ++ placesAll around ns

/-- A clause that may be absent and the nodes in it. -/
def placesOption (around : List Node) : Option Node → List Place
  | none => []
  | some n => placesIn around n

end

/-- The nodes in a tree, without the node at its top. -/
def places (tree : Node) : List Place :=
  (placesIn [] tree).tail

end Node

namespace Placement

/-- The rules of nesting, in the order in which they are looked at. -/
def all : List Placement :=
  [functionContent, importInBuffer, importAtRoot, declarationParent, extendParent, mixinAtRoot,
    functionAtRoot, resultInFunction, flushContent]

/-- What a rule of nesting asks of a node of kind `k` with the children `cs`, given the
kinds around it, innermost first. -/
def Kept (around : List Kind) (k : Kind) (cs : List Node) : Placement → Prop
  | functionContent => .function ∈ around.head? →
      k ∈ [.assignment, .result, .debug, .warn, .comment, .cond, .forLoop, .eachLoop, .whileLoop]
  | importInBuffer => k = .importSheet → .buffer ∉ around
  | importAtRoot => k = .importSheet → .root ∈ around.head?
  | declarationParent => k = .declaration →
      ∃ parent ∈ around.head?, parent ∈
        [.rule, .directive, .media, .supports, .buffer, .mixin, .declaration]
  | extendParent => k = .extend → ∃ parent ∈ around.head?, parent ∈ [.rule, .buffer, .mixin]
  | mixinAtRoot => k = .mixin → .root ∈ around.head?
  | functionAtRoot => k = .function → .root ∈ around.head?
  | resultInFunction => k = .result → .function ∈ around
  | flushContent => k = .flush → cs.isEmpty

instance (around : List Kind) (k : Kind) (cs : List Node) : DecidablePred (Kept around k cs)
  | functionContent => inferInstanceAs (Decidable (_ → _))
  | importInBuffer => inferInstanceAs (Decidable (_ → _))
  | importAtRoot => inferInstanceAs (Decidable (_ → _))
  | declarationParent => inferInstanceAs (Decidable (_ → _))
  | extendParent => inferInstanceAs (Decidable (_ → _))
  | mixinAtRoot => inferInstanceAs (Decidable (_ → _))
  | functionAtRoot => inferInstanceAs (Decidable (_ → _))
  | resultInFunction => inferInstanceAs (Decidable (_ → _))
  | flushContent => inferInstanceAs (Decidable (_ → _))

/-- The first rule that a node breaks. -/
def broken? (around : List Kind) (k : Kind) (cs : List Node) : Option Placement :=
  all.find? fun rule => ¬ rule.Kept around k cs

/-- The list of the rules has them all. -/
theorem mem_all (rule : Placement) : rule ∈ all := by
  cases rule <;> decide

variable {around outer : List Kind} {parent k : Kind} {cs : List Node}

/-- A node breaks no rule if it keeps all of them. -/
theorem broken?_eq_none :
    broken? around k cs = none ↔ ∀ rule : Placement, rule.Kept around k cs := by
  simp [broken?, mem_all]

/-- What may hold declarations, as a list. -/
theorem holdsDeclarations_iff : Nesting.holdsDeclarations parent ↔ parent ∈
    [.rule, .directive, .media, .supports, .buffer, .mixin, .declaration] := by
  cases parent <;> decide

/-- What may hold `@extend`, as a list. -/
theorem holdsExtends_iff : Nesting.holdsExtends parent ↔ parent ∈ [.rule, .buffer, .mixin] := by
  cases parent <;> decide

/-- What may stand in a function, as a list. -/
theorem inFunction_iff : Nesting.inFunction k ↔ k ∈
    [.assignment, .result, .debug, .warn, .comment, .cond, .forLoop, .eachLoop, .whileLoop] := by
  cases k <;> decide

/-- **The rule that is reported is the first that is broken.** -/
theorem violation?_eq_broken? :
    Nesting.violation? parent outer k (!cs.isEmpty) = broken? (parent :: outer) k cs := by
  unfold Nesting.violation? broken? all
  simp only [List.find?_cons, Kept, ← inFunction_iff, ← holdsDeclarations_iff, ← holdsExtends_iff]
  by_cases content : parent = .function ∧ ¬ Nesting.inFunction k
  · simp [content.1, content.2]
  · have inside : .function ∈ (parent :: outer).head? → Nesting.inFunction k := by
      rintro ⟨⟩
      exact Decidable.of_not_not fun h => content ⟨rfl, h⟩
    have skip : ¬ (decide (parent = .function) && !Nesting.inFunction k) := by
      simpa using content
    rw [if_neg skip, decide_eq_false (not_not_intro inside)]
    cases k <;> simp
    case importSheet => split <;> simp_all <;> split <;> simp_all
    case result =>
      by_cases here : .function = parent <;> by_cases outside : .function ∈ outer <;>
        simp [here, outside]
    all_goals split <;> simp_all

end Placement

/-- The kinds around a place, innermost first, without the control directives. -/
def Place.kinds (p : Place) : List Kind :=
  Node.visibleKinds p.around

/-- Whether a node keeps every rule of nesting where it is. -/
def Place.Right (p : Place) : Prop :=
  ∀ rule : Placement, rule.Kept p.kinds p.node.kind p.node.children

/-- The first rule that the node at a place breaks. -/
def Place.broken? (p : Place) : Option Placement :=
  Placement.broken? p.kinds p.node.kind p.node.children

/-- A place is right if no rule is broken there. -/
theorem Place.broken?_eq_none {p : Place} : p.broken? = none ↔ p.Right :=
  Placement.broken?_eq_none

instance : DecidablePred Place.Right := fun _ =>
  decidable_of_iff _ Place.broken?_eq_none

namespace Nesting

/-- The rules of nesting for the node at a place. -/
def checkAt (p : Place) : Except Diagnostic Unit :=
  checkPlace p.kinds p.node

/-- A control directive is not seen by what is in it. -/
theorem visibleKinds_cons (n : Node) (around : List Node) :
    Node.visibleKinds (n :: around) = within (Node.visibleKinds around) n.kind := by
  rw [Node.visibleKinds, List.map_cons, List.filter_cons, within]
  cases n.kind.isControl <;> rfl

/-! ### The check goes through the places -/

mutual

/-- A check of a node goes through the places in it. -/
theorem checkIn_eq_forM (around : List Node) (n : Node) :
    checkIn (Node.visibleKinds around) n = forM (n.placesIn around) checkAt := by
  match n with
  | .plain i h cs =>
    have inner := checkAll_eq_forM (.plain i h cs :: around) cs
    rw [visibleKinds_cons] at inner
    rw [checkIn, Node.placesIn, List.forM_cons, ← inner]
    rfl
  | .cond i t cs o =>
    have inner := checkAll_eq_forM (.cond i t cs o :: around) cs
    rw [visibleKinds_cons] at inner
    rw [checkIn, Node.placesIn, List.forM_cons, List.forM_append, ← inner,
      ← checkOption_eq_forM around o]
    rfl

/-- A check of some nodes goes through the places in all of them. -/
theorem checkAll_eq_forM (around : List Node) (ns : List Node) :
    checkAll (Node.visibleKinds around) ns = forM (Node.placesAll around ns) checkAt := by
  match ns with
  | [] => rfl
  | n :: ns =>
    rw [checkAll, Node.placesAll, List.forM_append, checkIn_eq_forM around n,
      checkAll_eq_forM around ns]

/-- A check of a clause goes through the places in it. -/
theorem checkOption_eq_forM (around : List Node) (o : Option Node) :
    checkOption (Node.visibleKinds around) o = forM (Node.placesOption around o) checkAt := by
  match o with
  | none => rfl
  | some n => exact checkIn_eq_forM around n

end

/-! ### The first place that is not right -/

/-- A place inside something that is no control directive is checked by its first broken
rule. -/
theorem checkAt_eq {p : Place} (inside : p.kinds ≠ []) :
    ∃ parent, p.kinds.head? = some parent ∧ checkAt p = match p.broken? with
      | none => .ok ()
      | some rule =>
        .error { cause := .misplaced rule parent p.node.kind, span := p.node.info.span } := by
  obtain ⟨parent, outer, e⟩ := List.exists_cons_of_ne_nil inside
  refine ⟨parent, by rw [e]; rfl, ?_⟩
  have rule : violation? parent outer p.node.kind (!p.node.children.isEmpty) = p.broken? := by
    rw [Placement.violation?_eq_broken?, Place.broken?, e]
  cases broken : p.broken? with
  | none => simp [checkAt, e, checkPlace, rule, broken]
  | some r => simp [checkAt, e, checkPlace, rule, broken]

/-- A right place is accepted, and no other. -/
theorem checkAt_eq_ok {p : Place} (inside : p.kinds ≠ []) : checkAt p = .ok () ↔ p.Right := by
  obtain ⟨parent, -, e⟩ := checkAt_eq inside
  rw [← Place.broken?_eq_none, e]
  cases p.broken? <;> simp

/-- What is reported of a place is the first rule that is broken there. -/
theorem checkAt_eq_error {p : Place} {d : Diagnostic} (inside : p.kinds ≠ []) :
    checkAt p = .error d ↔ ∃ rule parent, p.broken? = some rule ∧ p.kinds.head? = some parent ∧
      d = { cause := .misplaced rule parent p.node.kind, span := p.node.info.span } := by
  obtain ⟨parent, around, e⟩ := checkAt_eq inside
  rw [e, around]
  cases p.broken? <;> simp [eq_comm]

/-- Some places are checked up to the first one that is not right. -/
theorem forM_checkAt {ps : List Place} (inside : ∀ p ∈ ps, p.kinds ≠ []) :
    forM ps checkAt = match ps.find? fun p => ¬ p.Right with
      | none => .ok ()
      | some p => checkAt p := by
  induction ps with
  | nil => rfl
  | cons p ps ih =>
    have first := inside p List.mem_cons_self
    rw [List.forM_cons, List.find?_cons, ih fun q hq => inside q (List.mem_cons_of_mem p hq)]
    by_cases right : p.Right
    · rw [(checkAt_eq_ok first).2 right, decide_eq_false (not_not_intro right)]
      rfl
    · rw [decide_eq_true right]
      cases e : checkAt p with
      | ok => exact absurd ((checkAt_eq_ok first).1 e) right
      | error d => exact e.symm

mutual

/-- What is around a tree is around every node in it. -/
theorem suffix_of_mem_placesIn {around : List Node} {n : Node} {p : Place}
    (h : p ∈ n.placesIn around) : around <:+ p.around := by
  match n with
  | .plain i h' cs =>
    rcases List.mem_cons.1 h with rfl | h
    · exact List.suffix_rfl
    · exact (List.suffix_cons _ around).trans (suffix_of_mem_placesAll h)
  | .cond i t cs o =>
    rcases List.mem_cons.1 h with rfl | h
    · exact List.suffix_rfl
    · rcases List.mem_append.1 h with h | h
      · exact (List.suffix_cons _ around).trans (suffix_of_mem_placesAll h)
      · exact suffix_of_mem_placesOption h

/-- What is around some nodes is around every node in them. -/
theorem suffix_of_mem_placesAll {around : List Node} {ns : List Node} {p : Place}
    (h : p ∈ Node.placesAll around ns) : around <:+ p.around := by
  match ns with
  | [] => cases h
  | n :: ns =>
    rcases List.mem_append.1 h with h | h
    · exact suffix_of_mem_placesIn h
    · exact suffix_of_mem_placesAll h

/-- What is around a clause is around every node in it. -/
theorem suffix_of_mem_placesOption {around : List Node} {o : Option Node} {p : Place}
    (h : p ∈ Node.placesOption around o) : around <:+ p.around := by
  match o with
  | none => cases h
  | some n => exact suffix_of_mem_placesIn h

end

/-- The nodes of a document are in it. -/
theorem kinds_ne_nil {info : Info} {cs : List Node} {p : Place}
    (h : p ∈ (Node.plain info .root cs).places) : p.kinds ≠ [] := by
  have around : [Node.plain info .root cs] <:+ p.around := suffix_of_mem_placesAll h
  have root : .root ∈ p.kinds :=
    List.mem_filter.2 ⟨List.mem_map.2 ⟨_, around.subset List.mem_cons_self, rfl⟩, rfl⟩
  exact List.ne_nil_of_mem root

/-- **The nesting check accepts exactly the documents in which every node is where it may
be.**  Any other is refused for the first node that is not, with the first rule that the node
breaks, the kinds of what it is in and of itself, and its place in the text. -/
theorem check_document (info : Info) (cs : List Node) :
    (check (.plain info .root cs) = .ok () ↔ ∀ p ∈ (Node.plain info .root cs).places, p.Right) ∧
      ∀ d, check (.plain info .root cs) = .error d ↔ ∃ p rule parent,
        (Node.plain info .root cs).places.find? (fun p => ¬ p.Right) = some p ∧
          p.broken? = some rule ∧ p.kinds.head? = some parent ∧
            d = { cause := .misplaced rule parent p.node.kind, span := p.node.info.span } := by
  have inside (p : Place) : p ∈ (Node.plain info .root cs).places → p.kinds ≠ [] := kinds_ne_nil
  have same : check (.plain info .root cs) = forM (Node.plain info .root cs).places checkAt :=
    checkAll_eq_forM [.plain info .root cs] cs
  rw [same, forM_checkAt inside]
  cases found : (Node.plain info .root cs).places.find? fun p => ¬ p.Right with
  | none =>
    have all := List.find?_eq_none.1 found
    simp only [decide_eq_true_eq, Decidable.not_not] at all
    exact ⟨⟨fun _ => all, fun _ => rfl⟩, fun d => ⟨nofun, nofun⟩⟩
  | some p =>
    have member := List.mem_of_find?_eq_some found
    have wrong : ¬ p.Right := by simpa using List.find?_some found
    refine ⟨⟨fun h => absurd ((checkAt_eq_ok (inside p member)).1 h) wrong,
      fun h => absurd (h p member) wrong⟩, fun d => ?_⟩
    rw [checkAt_eq_error (inside p member)]
    constructor
    · rintro ⟨rule, parent, h⟩
      exact ⟨p, rule, parent, rfl, h⟩
    · rintro ⟨_, rule, parent, ⟨⟩, h⟩
      exact ⟨rule, parent, h⟩

end Nesting
end Stylesheet
