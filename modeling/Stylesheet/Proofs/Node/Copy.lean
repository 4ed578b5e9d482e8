/-
# Copies

An expression rebuilt from its parts is the same expression (`Expr.copy_eq`), and so is what a
node is (`Head.copy_eq`).  So the copy of a tree differs from it only in that none of its nodes is
a group (`Node.ungrouped`): the flushes in it refer to the groups that they have referred to
(`Node.copy_keeps`).
-/

import Stylesheet.Node

namespace Stylesheet

namespace Expr

mutual

/-- A copy of an expression is the same expression. -/
theorem copy_eq (e : Expr) : e.copy = e := by
  match e with
  | .literal _ | .variable _ => rfl
  | .binary l op r => rw [copy, copy_eq l, copy_eq r]
  | .unary op e => rw [copy, copy_eq e]
  | .call name args keywords => rw [copy, copyAll_eq args, copyKeywords_eq keywords]
  | .list items separator => rw [copy, copyAll_eq items]
  | .interpolation fragments quoted => rw [copy, copyFragments_eq fragments]

/-- Copies of some expressions are the same expressions. -/
theorem copyAll_eq (es : List Expr) : copyAll es = es := by
  match es with
  | [] => rfl
  | e :: es => rw [copyAll, copy_eq e, copyAll_eq es]

/-- Copies of keyword arguments are the same arguments. -/
theorem copyKeywords_eq (keywords : List (String × Expr)) : copyKeywords keywords = keywords := by
  match keywords with
  | [] => rfl
  | (name, e) :: rest => rw [copyKeywords, copy_eq e, copyKeywords_eq rest]

/-- Copies of the pieces of a template are the same pieces. -/
theorem copyFragments_eq (fragments : List (Fragment Expr)) :
    copyFragments fragments = fragments := by
  match fragments with
  | [] => rfl
  | .text s :: rest => rw [copyFragments, copyFragments_eq rest]
  | .hole e :: rest => rw [copyFragments, copy_eq e, copyFragments_eq rest]

end

/-- A copy of an expression that may be absent is the same. -/
theorem map_copy (o : Option Expr) : o.map copy = o := by
  cases o with
  | none => rfl
  | some e => rw [Option.map_some, copy_eq]

end Expr

namespace Head

/-- A copy of parameters with their defaults is the same. -/
theorem map_copyParameter (params : List Parameter) : params.map copyParameter = params := by
  refine (List.map_congr_left fun p _ => ?_).trans (List.map_id _)
  rw [copyParameter, Expr.map_copy]
  rfl

/-- A copy of the name of a buffer is the same. -/
theorem copyName_eq (name : BufferName) : copyName name = name := by
  rw [copyName, Expr.copyFragments_eq]

/-- A copy of a head is the same head. -/
theorem copy_eq (h : Head) : h.copy = h := by
  cases h <;>
    simp only [copy, Expr.copyFragments_eq, Expr.copyAll_eq, Expr.copyKeywords_eq, Expr.map_copy,
      map_copyParameter, copyName_eq]

end Head

namespace Node

mutual

/-- The tree without the numbers of its groups, which only tell a group from another node that
looks the same; all else is kept. -/
def ungrouped : Node → Node
  | plain i h cs => plain { i with group := none } h (ungroupedAll cs)
  | cond i t cs o => cond { i with group := none } t (ungroupedAll cs) (ungroupedOption o)

/-- Some trees without the numbers of their groups. -/
def ungroupedAll : List Node → List Node
  | [] => []
  | n :: ns => n.ungrouped :: ungroupedAll ns

/-- A clause that may be absent without the numbers of its groups. -/
def ungroupedOption : Option Node → Option Node
  | none => none
  | some n => some n.ungrouped

end

mutual

/-- **A copy of a tree** is the tree without the numbers of its groups. -/
theorem copy_eq (n : Node) : n.copy = n.ungrouped := by
  match n with
  | plain i h cs =>
    rw [copy, ungrouped, h.copy_eq, copyAll_eq cs]
    rfl
  | cond i t cs o =>
    rw [copy, ungrouped, Expr.map_copy, copyAll_eq cs, copyOption_eq o]
    rfl

/-- Copies of some nodes are the nodes without the numbers of their groups. -/
theorem copyAll_eq (ns : List Node) : copyAll ns = ungroupedAll ns := by
  match ns with
  | [] => rfl
  | n :: ns => rw [copyAll, ungroupedAll, copy_eq n, copyAll_eq ns]

/-- A copy of a clause is the clause without the numbers of its groups. -/
theorem copyOption_eq (o : Option Node) : copyOption o = ungroupedOption o := by
  match o with
  | none => rfl
  | some n => rw [copyOption, ungroupedOption, copy_eq n]

end

/-- A shell is a copy without the children. -/
theorem shell_eq (n : Node) : n.shell = n.ungrouped.withChildren [] := by
  rw [shell, copy_eq]
  cases n <;> rfl

/-- **A copy keeps everything**, in every node at every depth, but that it is no group itself; a
shell keeps everything but the children; and an expression is its own copy. -/
theorem copy_keeps :
    (∀ n : Node, n.copy = n.ungrouped ∧ n.shell = n.ungrouped.withChildren []) ∧
      ∀ e : Expr, e.copy = e :=
  ⟨fun n => ⟨n.copy_eq, n.shell_eq⟩, Expr.copy_eq⟩

end Node
end Stylesheet
