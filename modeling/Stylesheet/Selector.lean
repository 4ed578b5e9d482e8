/-
# Selector lists

A rule is written with a list of selectors separated by commas; a comma inside
parentheses or square brackets belongs to a selector.  `Selector.split` gives
the members of a list with their blanks collapsed, and `Selector.resolve` joins
them to the selectors of the enclosing rule: `&` stands for the parent, and a
selector without `&` is a descendant of it.
-/

import Stylesheet.Diagnostic
import Stylesheet.Text.Blank

namespace Stylesheet
namespace Selector

/-- The depth of brackets after a character; a closing bracket too many is ignored. -/
def depthAfter (depth : Nat) (c : Char) : Nat :=
  if c = '(' || c = '[' then depth + 1
  else if c = ')' || c = ']' then depth - 1
  else depth

/-- The pieces of a text between the commas outside brackets: the first piece
and the others. -/
def pieces (depth : Nat) : List Char → List Char × List (List Char)
  | [] => ([], [])
  | c :: rest =>
    if c = ',' && depth = 0 then
      let (first, others) := pieces 0 rest
      ([], first :: others)
    else
      let (first, others) := pieces (depthAfter depth c) rest
      (c :: first, others)

/-- The members of a selector list, blanks collapsed and blank members left out. -/
def splitChars (text : List Char) : List (List Char) :=
  let (first, others) := pieces 0 text
  ((first :: others).map Text.collapseChars).filter (· ≠ [])

/-- The members of a selector list. -/
def split (text : String) : List String :=
  (splitChars text.toList).map String.ofList

/-- `selector` with `parent` for every `&`, or below `parent` if there is none. -/
def joinChars (parent selector : List Char) : List Char :=
  if selector.contains '&' then
    selector.flatMap fun c => if c = '&' then parent else [c]
  else parent ++ ' ' :: selector

/-- `selector` with `parent` for every `&`, or below `parent` if there is none. -/
def join (parent selector : String) : String :=
  String.ofList (joinChars parent.toList selector.toList)

/-- The selectors of a rule inside a rule with the selectors `parents`. -/
def resolve (text : String) (parents : Option (List String)) :
    Except Cause (List String) :=
  let selectors := split text
  if selectors.isEmpty then .error .missingSelector
  else
    match parents.getD [] with
    | [] =>
      if selectors.any (·.toList.contains '&') then .error .parentReference else .ok selectors
    | parents => .ok (parents.flatMap fun parent => selectors.map (join parent))

end Selector
end Stylesheet
