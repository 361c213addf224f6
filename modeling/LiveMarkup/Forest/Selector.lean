import LiveMarkup.Forest.Properties
import LiveMarkup.Text.Blank

/-
This file finds elements by simple selectors.
-/

namespace LiveMarkup

/-- A selector names an identifier, a class or a tag. -/
inductive Selector where
  | identifier (name : String)
  | className (name : String)
  | tag (name : String)
deriving DecidableEq, Repr

namespace Selector

/-- Blanks around a selector carry no meaning. -/
def ofString (text : String) : Selector :=
  match Text.trim text.toList with
  | '#' :: rest => .identifier (String.ofList rest)
  | '.' :: rest => .className (String.ofList rest)
  | rest => .tag (String.ofList rest)

def lowered (name : String) : List Char := name.toList.map Char.toLower

def fits {Handler : Type} (selector : Selector) (element : Element Handler) : Bool :=
  match selector with
  | .identifier name => element.attributes.get? "id" == some name
  | .className name =>
      match element.attributes.get? "class" with
      | some classes => (Text.words classes.toList).contains name.toList
      | none => false
  | .tag name => lowered element.tag == lowered name

end Selector

namespace Forest

variable {Handler : Type}

def isSelected (forest : Forest Handler) (selector : Selector) (id : NodeId) : Bool :=
  (forest.element? id).any selector.fits

def queryAll (forest : Forest Handler) (root : NodeId) (selector : String) : List NodeId :=
  (forest.descendants root).filter (forest.isSelected (.ofString selector))

def query? (forest : Forest Handler) (root : NodeId) (selector : String) : Option NodeId :=
  (forest.descendants root).find? (forest.isSelected (.ofString selector))

end Forest

end LiveMarkup
