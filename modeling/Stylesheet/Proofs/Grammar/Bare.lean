/-
# Trees that are read from a text

Whatever a rule of the grammar reads that holds nodes, the nodes are fresh and bare
(`Grammar.makes_bare`): a leaf is built without content, and nothing has been evaluated.  So
is the content of every document that a text is (`Document.bare_of_readIn`).
-/

import Stylesheet.Proofs.Grammar.Made

namespace Stylesheet
namespace Grammar

/-- Clauses of an `@if` that are fresh. -/
theorem fresh_addElse {n clause : Node} (h : n.fresh true) (k : clause.fresh true) :
    (n.addElse clause).fresh true := by
  match n with
  | .plain .. => exact h
  | .cond i t cs none =>
    simp only [Node.fresh, Bool.and_eq_true, Node.addElse, Node.freshOption] at h ⊢
    exact ⟨h.1, k⟩
  | .cond i t cs (some o) =>
    simp only [Node.fresh, Bool.and_eq_true, Node.addElse, Node.freshOption] at h ⊢
    exact ⟨h.1, fresh_addElse h.2 k⟩

/-- What is built at any place is fresh and bare. -/
theorem makes_bare :
    Makes (fun _ => True) (fun n => n.fresh true) fun _ => True where
  leaf _ fresh inner := by
    simp [leaf, infoAt, Node.fresh, Node.freshAll, Head.suits, fresh, inner]
  branch _ fresh body inside := by
    simp [infoAt, Node.fresh, fresh, Head.suits_of_hasBody body, Node.freshAll_iff.2 inside]
  clause _ inside := by
    simp [infoAt, Node.fresh, Node.freshOption, Node.freshAll_iff.2 inside]
  addElse := fresh_addElse
  refusal _ := trivial

/-- **Every rule reads what is fresh and bare.** -/
theorem closed_bare :
    Closed (fun _ => True) fun _ r => r.Made (fun n => n.fresh true) fun _ => True :=
  closed_made makes_bare fun _ _ => trivial

end Grammar

/-- **The content of a document is bare**, in either syntax. -/
theorem Document.bare_of_readIn {inputSyntax : Syntax} {file text : String} {log log' : Log}
    {tree : Node} (h : Document.readIn inputSyntax file text log = (.ok tree, log')) :
    ∃ cs, tree = .plain {} .root cs ∧ Node.freshAll true cs := by
  obtain ⟨cs, e, bare⟩ := Document.fits_of_readIn Grammar.closed_bare (fun _ => trivial) h
  cases bare with
  | ok fresh => exact ⟨cs, e, Node.freshAll_iff.2 fresh⟩

end Stylesheet
