/-
# Compiling a style sheet

The stages one after the other: the text is read in its syntax, the nesting is
checked, the tree is evaluated, laid out and written as CSS.  The first failure
ends the compilation, and nothing is written then.
-/

import Stylesheet.Css.Emitter
import Stylesheet.Indentation
import Stylesheet.Layout
import Stylesheet.Nesting

namespace Stylesheet

/-- Notes what is odd about the options. -/
def Options.note (o : Options) : Logged Unit :=
  o.warnings.forM fun w => Stylesheet.note .warning .engine ("options: " ++ w)

/-- A tree whose nesting is right. -/
def Document.checked (tree : Node) : Logged Node :=
  match Nesting.check tree with
  | .ok () => return tree
  | .error d => throw (.diagnostic d)

/-- The tree of a text, with its nesting checked. -/
def Document.load (o : Options) (text : String) : Logged Node := do
  let tree ← Document.readIn o.inputSyntax o.file text
  Document.checked tree

/-- The evaluated and laid-out form of a tree, evaluated to a depth of at most
`depth`. -/
def Document.flatTo (depth : Nat) (o : Options) (tree : Node) : Logged (List Node) := do
  let evaluated ← Document.evaluateTo depth o { content := tree }
  match evaluated.content with
  | [root] => do
    let laid ← Document.layOut { content := root, groups := evaluated.groups }
    return laid.content
  | nodes => return nodes

/-- The CSS of a tree, evaluated to a depth of at most `depth`. -/
def Document.cssTo (depth : Nat) (o : Options) (tree : Node) : Logged String := do
  let tree ← Document.checked tree
  let nodes ← Document.flatTo depth o tree
  return match nodes with
    | [root] => (Css.render? o root).getD ""
    | _ => ""

/-- **The CSS of a style sheet.** -/
def compile (o : Options) (text : String) : Logged String := do
  o.note
  let tree ← Document.readIn o.inputSyntax o.file text
  let css ← Document.cssTo Evaluation.depth o tree
  note .info .engine ("compiled " ++ o.file ++ " (" ++ toString css.length ++ " bytes of CSS)")
  return css

/-- **The tree of a style sheet**, one node a line. -/
def dump (o : Options) (text : String) : Logged String := do
  o.note
  let tree ← Document.load o text
  return tree.pretty

end Stylesheet
