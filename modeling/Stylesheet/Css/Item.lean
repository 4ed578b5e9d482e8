/-
# The items of a CSS text

A CSS text is a list of items: lines of text, declarations, and blocks with a
header and items of their own, with blank lines between some of them.
`Css.itemsOf` gives the items of a laid-out tree.  A node that has no form in
CSS is passed over and only what is in it is written.
-/

import Stylesheet.Node
import Stylesheet.Options

namespace Stylesheet
namespace Css

/-- An item of a CSS text. -/
inductive Item where
  /-- A line as it is. -/
  | text (line : String)
  /-- A statement that a semicolon delimits. -/
  | declaration (line : String)
  /-- A header with items in braces. -/
  | block (header : String) (items : List Item)
  /-- A blank line. -/
  | blank
  /-- The end of a document inside another: what comes after it does not continue
  its declarations. -/
  | seam
  deriving BEq

/-- Items with a blank line after each that ends a group, except the last one. -/
def separate : List (Bool × List Item) → List Item
  | [] => []
  | [(_, items)] => items
  | (groupEnd, items) :: rest =>
    items ++ (if groupEnd then [Item.blank] else []) ++ separate rest

/-- Whether a comment is written in a style: a silent one never, in compressed
output only one that starts with an exclamation mark. -/
def showsComment (style : Style) (text : String) (silent : Bool) : Bool :=
  !silent && (style == .expanded || "/*!".isPrefixOf text)

/-- The text between the selectors of a rule. -/
def selectorSeparator : Style → String
  | .expanded => ", "
  | .compressed => ","

/-- The text between the name and the value of a declaration. -/
def valueSeparator : Style → String
  | .expanded => ": "
  | .compressed => ":"

/-- A resolved text, as it is written when it is absent. -/
def textOf (resolved : Option String) : String :=
  resolved.getD "None"

/-- The items of a node with this head and these items in it. -/
def itemsOfHead (style : Style) (head : Head) (inner : List Item) : List Item :=
  match head with
  | .rule _ resolved =>
    [.block ((selectorSeparator style).intercalate (resolved.getD [])) inner]
  | .declaration _ _ name value =>
    [.declaration (textOf name ++ valueSeparator style ++ textOf value)]
  | .comment text silent => if showsComment style text silent then [.text text] else []
  | .importSheet uri => [.declaration ("@import " ++ uri)]
  | .directive _ resolved hasBlock =>
    if hasBlock then [.block (resolved.getD "") inner] else [.declaration (resolved.getD "")]
  | .media _ resolved => [.block ("@media " ++ textOf resolved) inner]
  | .supports _ resolved => [.block ("@supports " ++ textOf resolved) inner]
  | _ => inner

mutual

/-- The items of a node. -/
def itemsOf (style : Style) : Node → List Item
  | .plain _ .root children => separate (itemsByChild style children) ++ [.seam]
  | .plain _ head children => itemsOfHead style head (itemsOfAll style children)
  | .cond _ _ children otherwise =>
    itemsOfAll style children ++ itemsOfOption style otherwise

/-- The items of some nodes. -/
def itemsOfAll (style : Style) : List Node → List Item
  | [] => []
  | n :: ns => itemsOf style n ++ itemsOfAll style ns

/-- The items of each of some nodes, with the group ends. -/
def itemsByChild (style : Style) : List Node → List (Bool × List Item)
  | [] => []
  | n :: ns => (n.info.groupEnd, itemsOf style n) :: itemsByChild style ns

/-- The items of a clause that may be absent. -/
def itemsOfOption (style : Style) : Option Node → List Item
  | none => []
  | some n => itemsOf style n

end

/-- The items of the children of a document. -/
def itemsOfDocument (style : Style) (children : List Node) : List Item :=
  separate (itemsByChild style children)

end Css
end Stylesheet
