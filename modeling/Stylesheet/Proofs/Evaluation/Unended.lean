/-
# Trees in which nothing ends a group

Only the layout pass says which nodes end groups.  What is read from a text ends none
(`Document.unended_of_readIn`), and neither does what an evaluation makes of such a tree
(`Evaluation.unended_of_run`).
-/

import Stylesheet.Proofs.Evaluation.Contract
import Stylesheet.Proofs.Grammar.Made
import Stylesheet.Proofs.Node.Located

namespace Stylesheet

namespace Node

variable {i : Info} {h : Head} {t : Option Expr} {cs : List Node} {o : Option Node}

/-- Whether no node of a tree ends a group. -/
def Unended (n : Node) : Prop :=
  ∀ m ∈ n.nodes, m.info.groupEnd = false

/-- Nothing ends a group in a node if it does not, and nothing inside does. -/
theorem unended_plain : (plain i h cs).Unended ↔ i.groupEnd = false ∧ ∀ n ∈ cs, n.Unended :=
  forall_nodes_plain

/-- Nothing ends a group in an `@if` if it does not, and nothing in its clauses does. -/
theorem unended_cond :
    (cond i t cs o).Unended ↔
      i.groupEnd = false ∧ (∀ n ∈ cs, n.Unended) ∧ ∀ n ∈ o, n.Unended :=
  forall_nodes_cond

end Node

namespace Grammar

/-- What is built ends no group if what it is built of does not. -/
theorem makes_unended : Makes (fun _ => True) Node.Unended fun _ => True where
  leaf _ _ _ := Node.unended_plain.2 ⟨rfl, nofun⟩
  branch _ _ _ inside := Node.unended_plain.2 ⟨rfl, inside⟩
  clause _ inside := Node.unended_cond.2 ⟨rfl, inside, nofun⟩
  addElse := Node.forall_nodes_addElse (p := fun i => i.groupEnd = false)
  refusal _ := trivial

/-- No rule of the grammar makes a node that ends a group. -/
theorem closed_unended :
    Closed (fun _ => True) fun _ r => r.Made Node.Unended fun _ => True :=
  closed_made makes_unended fun _ _ => trivial

end Grammar

/-- **Nothing in a document that is read ends a group**, in either syntax. -/
theorem Document.unended_of_readIn {inputSyntax : Syntax} {file text : String} {log log' : Log}
    {tree : Node} (h : Document.readIn inputSyntax file text log = (.ok tree, log')) :
    tree.Unended := by
  obtain ⟨cs, rfl, built⟩ := Document.fits_of_readIn Grammar.closed_unended (fun _ => trivial) h
  cases built with
  | ok inside => exact Node.unended_plain.2 ⟨rfl, inside⟩

/-- The contract of an evaluation of trees in which nothing ends a group. -/
def Contract.unending : Contract Unit where
  visited _ n := n.Unended
  mixin := ()
  function := ()
  results _ := True
  selector _ := True
  made n := n.Unended
  noted _ := True
  placed _ _ := True

/-- No step of an evaluation makes a node that ends a group. -/
theorem Contract.lawful_unending : unending.Lawful where
  inside visited _ := (Node.unended_plain.1 visited).2
  clause visited := (Node.unended_cond.1 visited).2
  ofMixin visited := (Node.unended_plain.1 visited).2
  ofFunction visited := (Node.unended_plain.1 visited).2
  ofResult _ := trivial
  ofInclusion _ := id
  resolve _ _ := trivial
  leaf visited _ _ :=
    have ⟨here, inside⟩ := Node.unended_plain.1 visited
    Node.unended_plain.2 ⟨here, inside⟩
  block := by
    intro k info info' head head' cs cs' visited _ _ place _ inside
    have same : info'.apart.groupEnd = info.apart.groupEnd := congrArg Info.groupEnd place
    have here : info.groupEnd = false := (Node.unended_plain.1 visited).1
    exact Node.unended_plain.2 ⟨same.trans here, inside⟩
  note _ _ := trivial

/-- **Nothing in what a run comes to ends a group** if nothing in the document does. -/
theorem Evaluation.unended_of_run {depth : Nat} {options : Options} {groups : Groups} {log : Log}
    {n : Node} {nodes : List Node} {w : World} (unended : n.Unended)
    (run : Eval.runFresh options groups log
      (fun scope => (Recursion.ofDepth depth).visit scope n) = (.ok nodes, w)) :
    ∀ m ∈ nodes, m.Unended := by
  obtain ⟨-, ends⟩ := Evaluation.keeps_of_run Contract.lawful_unending
    (fun _ _ _ _ _ _ => trivial) (k := ()) unended trivial run
  cases ends with
  | ok made => exact made.1

end Stylesheet
