/-
# Trees on the lines of a file

A node is `Node.In` a file if it and all that is in it is on some line of the file.
-/

import Stylesheet.Proofs.Node.Expansion

namespace Stylesheet

/-- Whether a place is on a line of a file. -/
def Span.In (file : String) (s : Span) : Prop :=
  s.file = file ∧ 0 < s.line

/-- A place in a file is known. -/
theorem Span.known_of_in {file : String} {s : Span} (h : s.In file) : s.known = true :=
  decide_eq_true h.2

/-- Whether a failure is on a line of a file, if it is a diagnostic. -/
def Failure.In (file : String) : Failure → Prop
  | .diagnostic d => d.span.In file
  | _ => True

namespace Node

variable {file : String} {i : Info} {h : Head} {t : Option Expr} {cs : List Node} {o : Option Node}

/-! ### Something of a tree and all that is in it -/

section

variable {p : Node → Prop}

/-- What holds of every node in a list. -/
theorem forall_nodesAll {ns : List Node} :
    (∀ m ∈ nodesAll ns, p m) ↔ ∀ n ∈ ns, ∀ m ∈ n.nodes, p m := by
  simp only [mem_nodesAll]
  exact ⟨fun h n hn m hm => h m ⟨n, hn, hm⟩, fun h m ⟨n, hn, hm⟩ => h n hn m hm⟩

/-- What holds of every node in a node without clauses. -/
theorem forall_nodes_plain :
    (∀ m ∈ (plain i h cs).nodes, p m) ↔ p (plain i h cs) ∧ ∀ n ∈ cs, ∀ m ∈ n.nodes, p m := by
  rw [nodes, List.forall_mem_cons, forall_nodesAll]

/-- What holds of every node in an `@if`. -/
theorem forall_nodes_cond :
    (∀ m ∈ (cond i t cs o).nodes, p m) ↔
      p (cond i t cs o) ∧ (∀ n ∈ cs, ∀ m ∈ n.nodes, p m) ∧ ∀ n ∈ o, ∀ m ∈ n.nodes, p m := by
  have clause : (∀ m ∈ nodesOption o, p m) ↔ ∀ n ∈ o, ∀ m ∈ n.nodes, p m := by
    cases o <;> simp [nodesOption]
  rw [nodes, List.forall_mem_cons, List.forall_mem_append, forall_nodesAll, clause]

/-- What holds of the places of two trees holds of one that is a clause of the other. -/
theorem forall_nodes_addElse {p : Info → Prop} {n clause : Node} (h : ∀ m ∈ n.nodes, p m.info)
    (k : ∀ m ∈ clause.nodes, p m.info) : ∀ m ∈ (n.addElse clause).nodes, p m.info := by
  match n with
  | .plain .. => exact h
  | .cond i t cs none =>
    obtain ⟨here, inside, -⟩ := forall_nodes_cond.1 h
    exact forall_nodes_cond.2 ⟨here, inside, fun n hn => Option.mem_some_iff.1 hn ▸ k⟩
  | .cond i t cs (some o) =>
    obtain ⟨here, inside, other⟩ := forall_nodes_cond.1 h
    exact forall_nodes_cond.2 ⟨here, inside, fun n hn =>
      Option.mem_some_iff.1 hn ▸ forall_nodes_addElse (other o rfl) k⟩

end

/-! ### The lines of a file -/

/-- Whether a tree and all that is in it is on the lines of a file. -/
def In (file : String) (n : Node) : Prop :=
  ∀ m ∈ n.nodes, m.info.span.In file

/-- A node is in a file if it is stamped so and its children are in the file. -/
theorem in_plain : (plain i h cs).In file ↔ i.span.In file ∧ ∀ n ∈ cs, n.In file :=
  forall_nodes_plain

/-- An `@if` is in a file if it is stamped so and its children and its clause are in the file. -/
theorem in_cond :
    (cond i t cs o).In file ↔ i.span.In file ∧ (∀ n ∈ cs, n.In file) ∧ ∀ n ∈ o, n.In file :=
  forall_nodes_cond

/-- A node in a file is stamped so. -/
theorem In.here {n : Node} (h : n.In file) : n.info.span.In file := by
  cases n with
  | plain i head cs => exact (in_plain.1 h).1
  | cond i t cs o => exact (in_cond.1 h).1

/-- An `@if` in a file with one more clause is in the file if the clause is. -/
theorem in_addElse {n clause : Node} (h : n.In file) (k : clause.In file) :
    (n.addElse clause).In file :=
  forall_nodes_addElse (p := fun i => i.span.In file) h k

end Node
end Stylesheet
