/-
# Trees up to their lines

`Node.unplaced` forgets the lines that the nodes of a tree are on.  Two texts that are read as
the same tree but for the line numbers are read as trees that are the same unplaced.
-/

import Stylesheet.Node

namespace Stylesheet
namespace Node

mutual

/-- A tree with no line numbers. -/
def unplaced : Node → Node
  | plain i h cs => plain { i with line := 0 } h (unplacedAll cs)
  | cond i t cs o => cond { i with line := 0 } t (unplacedAll cs) (unplacedOption o)

/-- Some trees with no line numbers. -/
def unplacedAll : List Node → List Node
  | [] => []
  | n :: ns => n.unplaced :: unplacedAll ns

/-- A clause that may be absent with no line numbers. -/
def unplacedOption : Option Node → Option Node
  | none => none
  | some n => some n.unplaced

end

end Node
end Stylesheet
