import LiveMarkup.Forest.Properties
import LiveMarkup.Markup.Reading

/-
This file makes nodes from markup, and gives the markup that nodes show.
-/

namespace LiveMarkup.Forest

variable {Handler : Type}

mutual

/-- This function makes the nodes of a piece of markup in document order, below a parent. -/
def plant (forest : Forest Handler) (parent : NodeId) : Markup → Forest Handler
  | .text content =>
      let (child, grown) := forest.create (.text content)
      grown.attach parent child
  | .comment content =>
      let (child, grown) := forest.create (.comment content)
      grown.attach parent child
  | .element tag attributes children =>
      let (child, grown) := forest.create (.element { tag, attributes })
      plantAll (grown.attach parent child) child children

def plantAll (forest : Forest Handler) (parent : NodeId) : List Markup → Forest Handler
  | [] => forest
  | first :: rest => plantAll (forest.plant parent first) parent rest

end

/-- This function makes a fragment with the given content. -/
def plantFragment (forest : Forest Handler) (trees : List Markup) : NodeId × Forest Handler :=
  let (root, grown) := forest.create .fragment
  (root, grown.plantAll root trees)

/-- These are the pieces of markup that a node shows, down to a depth. -/
def markupTo (forest : Forest Handler) : Nat → NodeId → List Markup
  | 0, _ => []
  | depth + 1, id =>
      match forest.content? id with
      | none => []
      | some .fragment => (forest.children id).flatMap (markupTo forest depth)
      | some (.text content) => [.text content]
      | some (.comment content) => [.comment content]
      | some (.element element) =>
          [.element element.tag element.attributes
            ((forest.children id).flatMap (markupTo forest depth))]

/-- No path downwards is longer than the forest. -/
def markup (forest : Forest Handler) (id : NodeId) : List Markup :=
  forest.markupTo (forest.size + 1) id

def innerMarkup (forest : Forest Handler) (id : NodeId) : List Markup :=
  (forest.children id).flatMap forest.markup

def innerHtml (forest : Forest Handler) (id : NodeId) : String :=
  String.ofList (Markup.printAll (forest.innerMarkup id))

def outerHtml (forest : Forest Handler) (id : NodeId) : String :=
  String.ofList (Markup.printAll (forest.markup id))

end LiveMarkup.Forest
