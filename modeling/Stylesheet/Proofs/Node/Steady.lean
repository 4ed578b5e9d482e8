/-
# Steady trees

A tree is steady when an evaluation of it comes upon nothing that it has no answer to:
every expression that a statement has to have is there, and every `@return` is inside a
function (or anywhere, if there may be `strays`).  Where no `ints` are meant to come up, it
has no loop over integers and calls no function that counts or rounds, either; its literals
are binary64 in any case.

The check of the nesting sees to the results (`Nesting.steady_of_checkAll`).
-/

import Stylesheet.Proofs.Nesting
import Stylesheet.Proofs.Value.Range

namespace Stylesheet

section

variable (ints : Bool)

/-- Whether a function may be called by this name: it is none that counts, unless there
are integers. -/
def Builtin.steady (name : String) : Bool :=
  (find? name).all fun fn => ints || !fn.counts

namespace Expr

mutual

/-- Whether an expression has binary64 literals and calls nothing that counts, unless there
are integers. -/
def steady : Expr → Bool
  | literal v => v.fair false
  | «variable» _ => true
  | binary left _ right => left.steady && right.steady
  | unary _ e => e.steady
  | call name args keywords =>
    Builtin.steady ints name && steadyAll args && steadyKeywords keywords
  | list items _ => steadyAll items
  | interpolation fragments _ => steadyTemplate fragments

/-- Whether all of some expressions are steady. -/
def steadyAll : List Expr → Bool
  | [] => true
  | e :: es => e.steady && steadyAll es

/-- Whether all keyword arguments are steady. -/
def steadyKeywords : List (String × Expr) → Bool
  | [] => true
  | (_, e) :: rest => e.steady && steadyKeywords rest

/-- Whether all holes of a template are steady. -/
def steadyTemplate : List (Fragment Expr) → Bool
  | [] => true
  | .text _ :: rest => steadyTemplate rest
  | .hole e :: rest => e.steady && steadyTemplate rest

end

end Expr

/-- Whether the default of a parameter, if there is one, is steady. -/
def Parameter.steady (p : Parameter) : Bool :=
  p.2.all (Expr.steady ints)

section

variable (strays here : Bool)

/-- Whether what a node with this head is made of is steady, where a result is allowed if it
is `here`. -/
def Head.steady : Head → Bool
  | root | importSheet _ | comment .. => true
  | rule t _ | directive t _ _ | media t _ | supports t _ | extend t _ =>
    Expr.steadyTemplate ints t
  | declaration name value _ _ => Expr.steadyTemplate ints name && value.all (Expr.steady ints)
  | assignment _ e _ | eachLoop _ e | whileLoop e | debug e | warn e => e.any (Expr.steady ints)
  | forLoop _ start stop _ => ints && start.any (Expr.steady ints) && stop.any (Expr.steady ints)
  | mixin _ params | function _ params => params.all (Parameter.steady ints)
  | inclusion _ args keywords => Expr.steadyAll ints args && Expr.steadyKeywords ints keywords
  | result e => here && e.any (Expr.steady ints)
  | buffer name | flush name _ => Expr.steadyTemplate ints name.written

/-- Whether a result is allowed inside a node with this head. -/
def Head.within : Head → Bool
  | function .. => true
  | mixin .. => strays
  | _ => here

end

namespace Node

variable (strays : Bool)

mutual

/-- Whether a tree is steady. -/
def steady (here : Bool) : Node → Bool
  | plain _ h cs => h.steady ints here && steadyAll (h.within strays here) cs
  | cond _ test cs o =>
    test.all (Expr.steady ints) && steadyAll here cs && steadyOption here o

/-- Whether some trees are steady. -/
def steadyAll (here : Bool) : List Node → Bool
  | [] => true
  | n :: ns => n.steady here && steadyAll here ns

/-- Whether a clause that may be absent is steady. -/
def steadyOption (here : Bool) : Option Node → Bool
  | none => true
  | some n => n.steady here

end

end Node
end

variable {ints strays here : Bool}

/-- Some expressions are steady if each of them is. -/
theorem Expr.steadyAll_iff {es : List Expr} :
    steadyAll ints es ↔ ∀ e ∈ es, e.steady ints := by
  induction es with
  | nil => simp [steadyAll]
  | cons e es ih => simp [steadyAll, ih]

/-- Keyword arguments are steady if their expressions are. -/
theorem Expr.steadyKeywords_iff {keywords : List (String × Expr)} :
    steadyKeywords ints keywords ↔ ∀ k ∈ keywords, k.2.steady ints := by
  induction keywords with
  | nil => simp [steadyKeywords]
  | cons k keywords ih => simp [steadyKeywords, ih]

/-- Whether a piece of a template is steady. -/
def Fragment.steady (ints : Bool) : Fragment Expr → Bool
  | text _ => true
  | hole e => e.steady ints

/-- A template is steady if its pieces are. -/
theorem Expr.steadyTemplate_iff {t : Template} :
    steadyTemplate ints t ↔ ∀ f ∈ t, f.steady ints := by
  induction t with
  | nil => simp [steadyTemplate]
  | cons f t ih => cases f <;> simp [steadyTemplate, Fragment.steady, ih]

/-- Some nodes are steady if each of them is. -/
theorem Node.steadyAll_iff {ns : List Node} :
    steadyAll ints strays here ns ↔ ∀ n ∈ ns, n.steady ints strays here := by
  induction ns with
  | nil => simp [steadyAll]
  | cons n ns ih => simp [steadyAll, ih]

/-- A clause that may be absent is steady if it is one that is. -/
theorem Node.steadyOption_iff {o : Option Node} :
    steadyOption ints strays here o ↔ ∀ n ∈ o, n.steady ints strays here := by
  cases o <;> simp [steadyOption]

/-- Parameters are steady if their defaults are. -/
theorem Parameter.steadyAll_iff {params : List Parameter} :
    params.all (Parameter.steady ints) ↔ ∀ p ∈ params, ∀ e ∈ p.2, e.steady ints := by
  simp only [List.all_eq_true, Parameter.steady, Option.all_eq_true, Option.mem_def]

/-- A node without clauses is steady if its head and its children are. -/
theorem Node.steady_plain {info : Info} {h : Head} {cs : List Node} :
    (plain info h cs).steady ints strays here ↔
      h.steady ints here ∧ ∀ n ∈ cs, n.steady ints strays (h.within strays here) := by
  rw [steady, Bool.and_eq_true, steadyAll_iff]

/-- An `@if` is steady if its condition, its children and its clauses are. -/
theorem Node.steady_cond {info : Info} {test : Option Expr} {cs : List Node} {o : Option Node} :
    (cond info test cs o).steady ints strays here ↔
      ((∀ e ∈ test, e.steady ints) ∧ ∀ n ∈ cs, n.steady ints strays here) ∧
        ∀ n ∈ o, n.steady ints strays here := by
  simp only [steady, Bool.and_eq_true, Option.all_eq_true, Option.mem_def, steadyAll_iff,
    steadyOption_iff]

/-! ### Trees that count -/

namespace Expr

mutual

/-- Whether a function that counts or rounds is called in an expression. -/
def counts : Expr → Bool
  | literal _ | «variable» _ => false
  | binary left _ right => left.counts || right.counts
  | unary _ e => e.counts
  | call name args keywords =>
    (Builtin.find? name).any Builtin.counts || countsAny args || countsKeywords keywords
  | list items _ => countsAny items
  | interpolation fragments _ => countsTemplate fragments

/-- Whether some expression counts. -/
def countsAny : List Expr → Bool
  | [] => false
  | e :: es => e.counts || countsAny es

/-- Whether some keyword argument counts. -/
def countsKeywords : List (String × Expr) → Bool
  | [] => false
  | (_, e) :: rest => e.counts || countsKeywords rest

/-- Whether some hole of a template counts. -/
def countsTemplate : List (Fragment Expr) → Bool
  | [] => false
  | .text _ :: rest => countsTemplate rest
  | .hole e :: rest => e.counts || countsTemplate rest

end

mutual

/-- What does not count is steady with integers or without. -/
theorem steady_of_counts {e : Expr} (h : e.steady true) (no : e.counts = false) :
    e.steady ints := by
  match e with
  | literal v => exact h
  | «variable» _ => rfl
  | binary left _ right =>
    simp only [steady, counts, Bool.and_eq_true, Bool.or_eq_false_iff] at h no ⊢
    exact ⟨steady_of_counts h.1 no.1, steady_of_counts h.2 no.2⟩
  | unary _ e => exact steady_of_counts (e := e) h no
  | call name args keywords =>
    simp only [steady, counts, Bool.and_eq_true, Bool.or_eq_false_iff] at h no ⊢
    refine ⟨⟨?_, steadyAll_of_counts h.1.2 no.1.2⟩, steadyKeywords_of_counts h.2 no.2⟩
    cases e : Builtin.find? name with
    | none => simp [Builtin.steady, e]
    | some fn =>
      rw [e] at no
      simp [Builtin.steady, e, show fn.counts = false from no.1.1]
  | list items _ => exact @steadyAll_of_counts items h no
  | interpolation fragments _ => exact steadyTemplate_of_counts (t := fragments) h no

/-- As `steady_of_counts`, for some expressions. -/
theorem steadyAll_of_counts {es : List Expr} (h : steadyAll true es) (no : countsAny es = false) :
    steadyAll ints es := by
  match es with
  | [] => rfl
  | e :: es =>
    simp only [steadyAll, countsAny, Bool.and_eq_true, Bool.or_eq_false_iff] at h no ⊢
    exact ⟨steady_of_counts h.1 no.1, steadyAll_of_counts h.2 no.2⟩

/-- As `steady_of_counts`, for keyword arguments. -/
theorem steadyKeywords_of_counts {keywords : List (String × Expr)}
    (h : steadyKeywords true keywords) (no : countsKeywords keywords = false) :
    steadyKeywords ints keywords := by
  match keywords with
  | [] => rfl
  | (_, e) :: rest =>
    simp only [steadyKeywords, countsKeywords, Bool.and_eq_true, Bool.or_eq_false_iff] at h no ⊢
    exact ⟨steady_of_counts h.1 no.1, steadyKeywords_of_counts h.2 no.2⟩

/-- As `steady_of_counts`, for the pieces of a template. -/
theorem steadyTemplate_of_counts {t : List (Fragment Expr)} (h : steadyTemplate true t)
    (no : countsTemplate t = false) : steadyTemplate ints t := by
  match t with
  | [] => rfl
  | .text _ :: rest => exact steadyTemplate_of_counts (t := rest) h no
  | .hole e :: rest =>
    simp only [steadyTemplate, countsTemplate, Bool.and_eq_true, Bool.or_eq_false_iff] at h no ⊢
    exact ⟨steady_of_counts h.1 no.1, steadyTemplate_of_counts h.2 no.2⟩

end

/-- As `steady_of_counts`, for an expression that may be absent. -/
theorem all_of_counts {o : Option Expr} (h : o.all (steady true)) (no : o.any counts = false) :
    o.all (steady ints) := by
  cases o with
  | none => rfl
  | some e => exact steady_of_counts (e := e) h no

/-- As `all_of_counts`, where an expression has to be there. -/
theorem any_of_counts {o : Option Expr} (h : o.any (steady true)) (no : o.any counts = false) :
    o.any (steady ints) := by
  cases o with
  | none => cases h
  | some e => exact steady_of_counts (e := e) h no

end Expr

/-- Whether a node with this head is a loop over integers, or what it is made of counts. -/
def Head.counts : Head → Bool
  | root | importSheet _ | comment .. => false
  | rule t _ | directive t _ _ | media t _ | supports t _ | extend t _ => Expr.countsTemplate t
  | declaration name value _ _ => Expr.countsTemplate name || value.any Expr.counts
  | assignment _ e _ | eachLoop _ e | whileLoop e | debug e | warn e | result e =>
    e.any Expr.counts
  | forLoop .. => true
  | mixin _ params | function _ params => params.any fun p => p.2.any Expr.counts
  | inclusion _ args keywords => Expr.countsAny args || Expr.countsKeywords keywords
  | buffer name | flush name _ => Expr.countsTemplate name.written

/-- As `steady_of_counts`, for parameters. -/
theorem Parameter.steady_of_counts {params : List Parameter}
    (h : params.all (Parameter.steady true))
    (no : (params.any fun p => p.2.any Expr.counts) = false) :
    params.all (Parameter.steady ints) := by
  simp only [List.all_eq_true, List.any_eq_false] at h no ⊢
  exact fun p hp => Expr.all_of_counts (h p hp) (by simpa using no p hp)

/-- A head that does not count is steady with integers or without. -/
theorem Head.steady_of_counts {h : Head} (steady : h.steady true here) (no : h.counts = false) :
    h.steady ints here := by
  cases h with
  | root | importSheet | comment => rfl
  | rule | directive | media | supports | extend | buffer | flush =>
    exact Expr.steadyTemplate_of_counts steady no
  | declaration name value =>
    simp only [Head.steady, counts, Bool.and_eq_true, Bool.or_eq_false_iff] at steady no ⊢
    exact ⟨Expr.steadyTemplate_of_counts steady.1 no.1, Expr.all_of_counts steady.2 no.2⟩
  | assignment | eachLoop | whileLoop | debug | warn => exact Expr.any_of_counts steady no
  | result e =>
    simp only [Head.steady, counts, Bool.and_eq_true] at steady no ⊢
    exact ⟨steady.1, Expr.any_of_counts steady.2 no⟩
  | forLoop => cases no
  | mixin | function => exact Parameter.steady_of_counts steady no
  | inclusion name args keywords =>
    simp only [Head.steady, counts, Bool.and_eq_true, Bool.or_eq_false_iff] at steady no ⊢
    exact ⟨Expr.steadyAll_of_counts steady.1 no.1, Expr.steadyKeywords_of_counts steady.2 no.2⟩

namespace Node

mutual

/-- Whether a tree has a loop over integers in it, or a call of a function that counts or
rounds. -/
def counts : Node → Bool
  | plain _ h cs => h.counts || countsAny cs
  | cond _ test cs o => test.any Expr.counts || countsAny cs || countsOption o

/-- Whether some tree of these counts. -/
def countsAny : List Node → Bool
  | [] => false
  | n :: ns => n.counts || countsAny ns

/-- Whether a clause that may be absent counts. -/
def countsOption : Option Node → Bool
  | none => false
  | some n => n.counts

end

mutual

/-- **A steady tree that does not count is steady without integers.** -/
theorem steady_of_counts {n : Node} {here : Bool} (h : n.steady true strays here)
    (no : n.counts = false) : n.steady ints strays here := by
  match n with
  | plain _ head cs =>
    simp only [steady, counts, Bool.and_eq_true, Bool.or_eq_false_iff] at h no ⊢
    exact ⟨Head.steady_of_counts h.1 no.1, steadyAll_of_counts h.2 no.2⟩
  | cond _ test cs o =>
    simp only [steady, counts, Bool.and_eq_true, Bool.or_eq_false_iff] at h no ⊢
    exact ⟨⟨Expr.all_of_counts h.1.1 no.1.1, steadyAll_of_counts h.1.2 no.1.2⟩,
      steadyOption_of_counts h.2 no.2⟩

/-- As `Node.steady_of_counts`, for some nodes. -/
theorem steadyAll_of_counts {ns : List Node} {here : Bool} (h : steadyAll true strays here ns)
    (no : countsAny ns = false) : steadyAll ints strays here ns := by
  match ns with
  | [] => rfl
  | n :: ns =>
    simp only [steadyAll, countsAny, Bool.and_eq_true, Bool.or_eq_false_iff] at h no ⊢
    exact ⟨steady_of_counts h.1 no.1, steadyAll_of_counts h.2 no.2⟩

/-- As `Node.steady_of_counts`, for a clause. -/
theorem steadyOption_of_counts {o : Option Node} {here : Bool}
    (h : steadyOption true strays here o) (no : countsOption o = false) :
    steadyOption ints strays here o := by
  match o with
  | none => rfl
  | some n => exact steady_of_counts (n := n) h no

end

end Node

/-! ### Results inside functions -/

namespace Head

/-- Results that may be anywhere may be inside every node. -/
theorem within_anywhere (h : Head) : h.within true true = true := by
  cases h <;> rfl

end Head

namespace Nesting

variable {parent : Kind} {outer : List Kind} {info : Info} {head : Head} {cs : List Node}

/-- A head that is where it may be: a result is inside a function. -/
theorem steady_of_checkPlace (place : checkPlace (parent :: outer) (.plain info head cs) = .ok ())
    (h : head.steady ints true) : head.steady ints ((parent :: outer).contains .function) := by
  cases head with
  | result e =>
    rw [checkPlace_eq_ok] at place
    cases inside : (parent :: outer).contains .function with
    | true => exact h
    | false =>
      dsimp only [violation?, Node.kind, Head.kind] at place
      split at place
      · cases place
      · split at place
        · rename_i found
          exact nomatch inside.symm.trans found
        · cases place
  | _ => exact h

/-- What is around the content of a node that is where it may be tells whether a result may
be there. -/
theorem contains_within (bottom : parent = .root → outer.contains .function = false)
    (place : checkPlace (parent :: outer) (.plain info head cs) = .ok ()) :
    (within (parent :: outer) head.kind).contains .function =
      head.within false ((parent :: outer).contains .function) := by
  cases head with
  | mixin name params =>
    rw [checkPlace_eq_ok] at place
    have atRoot : parent = .root := by
      refine Decidable.of_not_not fun no => ?_
      dsimp only [violation?, Node.kind, Head.kind] at place
      rw [if_neg no] at place
      split at place <;> cases place
    have outside := bottom atRoot
    rw [atRoot]
    simpa [within, Kind.isControl, Head.kind, Head.within] using outside
  | function => simp [within, Kind.isControl, Head.kind, Head.within]
  | _ => simp [within, Kind.isControl, Head.kind, Head.within]

/-- Inside anything but the document, there is something else that is directly around. -/
theorem bottom_within (bottom : parent = .root → outer.contains .function = false)
    (suits : head.suits true cs) :
    ∃ p o, within (parent :: outer) head.kind = p :: o ∧
      (p = .root → o.contains .function = false) := by
  unfold within
  split
  · exact ⟨parent, outer, rfl, bottom⟩
  · exact ⟨head.kind, _, rfl, fun root => absurd root (kind_ne_root suits)⟩

/-- Where a result may be is where there is a function around. -/
theorem passes_steady : Passes fun around n =>
    (∃ p o, around = p :: o ∧ (p = .root → o.contains .function = false)) → n.fresh true →
      n.steady ints true true → n.steady ints false (around.contains .function) where
  plain := by
    rintro around info head cs place - inner ⟨parent, outer, rfl, bottom⟩ fresh h
    simp only [Node.fresh, Bool.and_eq_true] at fresh
    rw [Node.steady, Head.within_anywhere, Bool.and_eq_true] at h
    rw [Node.steady, Bool.and_eq_true, ← contains_within bottom place]
    refine ⟨steady_of_checkPlace place h.1, Node.steadyAll_iff.2 fun n hn => ?_⟩
    exact inner n hn (bottom_within bottom fresh.1.2) (Node.freshAll_iff.1 fresh.2 n hn)
      (Node.steadyAll_iff.1 h.2 n hn)
  cond := by
    intro around info test cs o inner clause bottom fresh h
    simp only [Node.fresh, Bool.and_eq_true] at fresh
    simp only [Node.steady, Bool.and_eq_true, Node.steadyAll_iff, Node.steadyOption_iff] at h ⊢
    exact ⟨⟨h.1.1, fun n hn => inner n hn bottom (Node.freshAll_iff.1 fresh.1.2 n hn) (h.1.2 n hn)⟩,
      fun n hn => clause n hn bottom (Node.freshOption_iff.1 fresh.2 n hn) (h.2 n hn)⟩

/-- **Where the nesting is right, every result is inside a function.** -/
theorem steady_of_checkAll {parent : Kind} {outer : List Kind} {ns : List Node}
    (bottom : parent = .root → outer.contains .function = false) (fresh : Node.freshAll true ns)
    (h : Node.steadyAll ints true true ns) (ok : checkAll (parent :: outer) ns = .ok ()) :
    Node.steadyAll ints false ((parent :: outer).contains .function) ns :=
  Node.steadyAll_iff.2 fun n hn => passes_steady.of_checkAll ok n hn ⟨parent, outer, rfl, bottom⟩
    (Node.freshAll_iff.1 fresh n hn) (Node.steadyAll_iff.1 h n hn)

end Nesting
end Stylesheet
