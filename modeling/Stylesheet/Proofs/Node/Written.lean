/-
# Trees before evaluation

A tree is `Node.fresh` if nothing in it has been evaluated: it holds no group, and its
flushes have captured nothing.  It is fresh and *bare* if, besides, nothing is inside
nodes that have no body, as it is in every tree that has been read from a text.

A tree is `Node.tame` if the functions in it are made of nothing but scripts, statements
that leave no node (`Node.scripted`).  The check of the nesting sees to that
(`Nesting.tame_of_check`); it is what makes it safe to throw away what the body of a
function comes to.

What the check sees to is shown of one node at a time, given what is around it
(`Nesting.Passes`).
-/

import Stylesheet.Nesting

namespace Stylesheet

namespace Head

/-- Whether a head has not been through an evaluation. -/
def fresh : Head → Bool
  | flush name captured => name.resolved.isNone && captured.isEmpty
  | _ => true

/-- Whether a node with this head has a body. -/
def hasBody : Head → Bool
  | rule .. | media .. | supports .. | buffer _ | forLoop .. | eachLoop .. | whileLoop _
  | mixin .. | function .. => true
  | directive _ _ hasBlock => hasBlock
  | _ => false

/-- Whether a head is that of a rule, of a query or of a condition. -/
def grouping : Head → Bool
  | rule .. | media .. | supports .. => true
  | _ => false

/-- Whether a node with this head may be inside a tree and have these children: in a bare
tree there is no second document, and nothing inside nodes without a body. -/
def suits (bare : Bool) (h : Head) (cs : List Node) : Bool :=
  !bare || h.kind != .root && (h.hasBody || cs.isEmpty)

/-- Any children suit a head with a body. -/
theorem suits_of_hasBody {bare : Bool} {h : Head} (body : h.hasBody) (cs : List Node) :
    h.suits bare cs := by
  cases h with
  | root => cases body
  | _ => simp [suits, body, kind]

/-- No children suit a head without a body. -/
theorem nil_of_suits {h : Head} {cs : List Node} (suits : h.suits true cs)
    (body : h.hasBody = false) : cs = [] := by
  rw [Head.suits, body, Bool.not_true, Bool.false_or, Bool.false_or, Bool.and_eq_true] at suits
  exact List.isEmpty_iff.1 suits.2

end Head

namespace Node

section

variable (bare : Bool)

mutual

/-- Whether nothing in a tree has been evaluated. -/
def fresh : Node → Bool
  | plain i h cs => i.group.isNone && h.fresh && h.suits bare cs && freshAll cs
  | cond i _ cs o => i.group.isNone && freshAll cs && freshOption o

/-- Whether nothing in some trees has been evaluated. -/
def freshAll : List Node → Bool
  | [] => true
  | n :: ns => n.fresh && freshAll ns

/-- Whether nothing in a clause that may be absent has been evaluated. -/
def freshOption : Option Node → Bool
  | none => true
  | some n => n.fresh

end

end

/-- Whether a node is a rule, a query or a condition. -/
def grouping : Node → Bool
  | plain _ h _ => h.grouping
  | cond .. => false

mutual

/-- Whether a node is a script: a statement without output, or a control directive with
nothing but scripts inside. -/
def scripted : Node → Bool
  | plain _ h cs =>
    match h with
    | .assignment .. | .result _ | .debug _ | .warn _ | .comment .. => true
    | .forLoop .. | .eachLoop .. | .whileLoop _ => scriptedAll cs
    | _ => false
  | cond _ _ cs o => scriptedAll cs && scriptedOption o

/-- Whether some nodes are scripts. -/
def scriptedAll : List Node → Bool
  | [] => true
  | n :: ns => n.scripted && scriptedAll ns

/-- Whether a clause that may be absent is a script. -/
def scriptedOption : Option Node → Bool
  | none => true
  | some n => n.scripted

end

mutual

/-- Whether every function in a tree is made of scripts. -/
def tame : Node → Bool
  | plain _ h cs =>
    match h with
    | .function .. => scriptedAll cs
    | _ => tameAll cs
  | cond _ _ cs o => tameAll cs && tameOption o

/-- Whether every function in some trees is made of scripts. -/
def tameAll : List Node → Bool
  | [] => true
  | n :: ns => n.tame && tameAll ns

/-- Whether every function in a clause that may be absent is made of scripts. -/
def tameOption : Option Node → Bool
  | none => true
  | some n => n.tame

end

/-- Some nodes are fresh if each of them is. -/
theorem freshAll_iff {bare : Bool} {ns : List Node} :
    freshAll bare ns ↔ ∀ n ∈ ns, n.fresh bare := by
  induction ns with
  | nil => simp [freshAll]
  | cons n ns ih => simp [freshAll, ih]

/-- Two lists of nodes are fresh if each one is. -/
theorem freshAll_append {bare : Bool} {ns ms : List Node} :
    freshAll bare (ns ++ ms) ↔ freshAll bare ns ∧ freshAll bare ms := by
  simp only [freshAll_iff, List.mem_append, or_imp, forall_and]

/-- A clause that may be absent is fresh if it is one that is. -/
theorem freshOption_iff {bare : Bool} {o : Option Node} :
    freshOption bare o ↔ ∀ n ∈ o, n.fresh bare := by
  cases o <;> simp [freshOption]

/-- Some nodes are scripted if each of them is. -/
theorem scriptedAll_iff {ns : List Node} : scriptedAll ns ↔ ∀ n ∈ ns, n.scripted := by
  induction ns with
  | nil => simp [scriptedAll]
  | cons n ns ih => simp [scriptedAll, ih]

/-- A clause that may be absent is scripted if it is one that is. -/
theorem scriptedOption_iff {o : Option Node} : scriptedOption o ↔ ∀ n ∈ o, n.scripted := by
  cases o <;> simp [scriptedOption]

/-- Some nodes are tame if each of them is. -/
theorem tameAll_iff {ns : List Node} : tameAll ns ↔ ∀ n ∈ ns, n.tame := by
  induction ns with
  | nil => simp [tameAll]
  | cons n ns ih => simp [tameAll, ih]

/-- A clause that may be absent is tame if it is one that is. -/
theorem tameOption_iff {o : Option Node} : tameOption o ↔ ∀ n ∈ o, n.tame := by
  cases o <;> simp [tameOption]

/-- Two lists of nodes are tame if each one is. -/
theorem tameAll_append {ns ms : List Node} :
    tameAll (ns ++ ms) ↔ tameAll ns ∧ tameAll ms := by
  simp only [tameAll_iff, List.mem_append, or_imp, forall_and]

end Node

namespace Nesting

open Node

/-- A check that has come to its end has found nothing at first, and nothing after that. -/
theorem bind_eq_ok {ε α : Type} {x : Except ε Unit} {f : Unit → Except ε α} {a : α}
    (h : x >>= f = .ok a) : x = .ok () ∧ f () = .ok a := by
  cases x with
  | error e => cases h
  | ok u => exact ⟨rfl, h⟩

/-- What a node has that is where it may be, given what is around it, if everything directly
inside it has it. -/
structure Passes (P : List Kind → Node → Prop) : Prop where
  plain {around : List Kind} {info : Info} {head : Head} {cs : List Node}
    (place : checkPlace around (.plain info head cs) = .ok ())
    (content : checkAll (within around head.kind) cs = .ok ())
    (inner : ∀ n ∈ cs, P (within around head.kind) n) : P around (.plain info head cs)
  cond {around : List Kind} {info : Info} {test : Option Expr} {cs : List Node}
    {o : Option Node} (inner : ∀ n ∈ cs, P around n) (clause : ∀ n ∈ o, P around n) :
    P around (.cond info test cs o)

mutual

/-- **A tree whose nesting is right has it.** -/
theorem Passes.of_checkIn {P : List Kind → Node → Prop} (passes : Passes P)
    {around : List Kind} {n : Node} (h : checkIn around n = .ok ()) : P around n := by
  match n with
  | .plain info head cs =>
    rw [checkIn] at h
    obtain ⟨place, content⟩ := bind_eq_ok h
    exact passes.plain place content (passes.of_checkAll content)
  | .cond info test cs o =>
    rw [checkIn] at h
    obtain ⟨-, rest⟩ := bind_eq_ok h
    obtain ⟨content, clause⟩ := bind_eq_ok rest
    exact passes.cond (passes.of_checkAll content) (passes.of_checkOption clause)

/-- What passes the check of some nodes holds of each of them. -/
theorem Passes.of_checkAll {P : List Kind → Node → Prop} (passes : Passes P)
    {around : List Kind} {ns : List Node} (h : checkAll around ns = .ok ()) :
    ∀ n ∈ ns, P around n := by
  match ns with
  | [] => exact List.forall_mem_nil _
  | n :: ns =>
    rw [checkAll] at h
    obtain ⟨first, others⟩ := bind_eq_ok h
    exact List.forall_mem_cons.2 ⟨passes.of_checkIn first, passes.of_checkAll others⟩

/-- What passes the check of a clause holds of it. -/
theorem Passes.of_checkOption {P : List Kind → Node → Prop} (passes : Passes P)
    {around : List Kind} {o : Option Node} (h : checkOption around o = .ok ()) :
    ∀ n ∈ o, P around n := by
  match o with
  | none => exact fun n hn => absurd hn (Option.not_mem_none n)
  | some n =>
    intro m hm
    cases hm
    exact passes.of_checkIn h

end

/-- What may be directly inside a function. -/
theorem inFunction_of_checkPlace {outer : List Kind} {n : Node}
    (h : checkPlace (.function :: outer) n = .ok ()) : inFunction n.kind := by
  cases e : inFunction n.kind with
  | true => rfl
  | false => simp [checkPlace, violation?, e] at h

/-- Directly inside a function there are only scripts. -/
theorem passes_scripted : Passes fun around n => around.head? = some .function → n.scripted where
  plain := by
    intro around info head cs place content inner inside
    obtain ⟨outer, rfl⟩ := List.head?_eq_some_iff.1 inside
    have allowed := inFunction_of_checkPlace place
    cases head with
    | assignment | result | debug | warn | comment => rfl
    | forLoop | eachLoop | whileLoop => exact scriptedAll_iff.2 fun n hn => inner n hn rfl
    | _ => cases allowed
  cond := by
    intro around info test cs o inner clause inside
    rw [scripted, Bool.and_eq_true]
    exact ⟨scriptedAll_iff.2 fun n hn => inner n hn inside,
      scriptedOption_iff.2 fun n hn => clause n hn inside⟩

/-- The content of a function is made of scripts. -/
theorem scriptedAll_of_checkAll {outer : List Kind} {ns : List Node}
    (h : checkAll (.function :: outer) ns = .ok ()) : scriptedAll ns :=
  scriptedAll_iff.2 fun n hn => passes_scripted.of_checkAll h n hn rfl

/-- What passes the check of nesting is tame. -/
theorem passes_tame : Passes fun _ n => n.tame where
  plain := by
    intro around info head cs _ content inner
    cases head with
    | function => exact scriptedAll_of_checkAll content
    | _ => exact tameAll_iff.2 inner
  cond := by
    intro around info test cs o inner clause
    rw [tame, Bool.and_eq_true]
    exact ⟨tameAll_iff.2 inner, tameOption_iff.2 clause⟩

/-- **The functions of a tree whose nesting is right are made of scripts.** -/
theorem tame_of_check {tree : Node} (h : check tree = .ok ()) : tree.tame :=
  passes_tame.of_checkIn h

end Nesting
end Stylesheet
