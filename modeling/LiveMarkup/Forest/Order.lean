import LiveMarkup.Forest.Basic

/-
This file walks the nodes below a root in document order. A walk keeps no stack: it finds its way
by the links to parents and by the places of nodes among their siblings.
-/

namespace LiveMarkup.Forest

variable {Handler : Type}

/-- This function gives the member of a list that follows the first occurrence of a node. -/
def following? (id : NodeId) : List NodeId → Option NodeId
  | [] => none
  | first :: rest => if first = id then rest.head? else following? id rest

def nextSibling? (forest : Forest Handler) (id : NodeId) : Option NodeId :=
  (forest.parent? id).bind fun parent => following? id (forest.children parent)

/-- These are the nodes above a node, the nearest one in front, within `limit` steps. -/
def aboveWithin (forest : Forest Handler) : Nat → NodeId → List NodeId
  | 0, _ => []
  | limit + 1, id =>
      match forest.parent? id with
      | none => []
      | some parent => parent :: aboveWithin forest limit parent

/-- A node itself shows none of what happens to it. What is above it does. -/
def above (forest : Forest Handler) (id : NodeId) : List NodeId :=
  forest.aboveWithin forest.size id

/-- These nodes show something else when a node gets a new content. Its children leave it. -/
def holders (forest : Forest Handler) (id : NodeId) : List NodeId :=
  id :: forest.above id ++ (forest.children id).flatMap forest.above

/-- An append moves the children of a fragment, and any other node itself. -/
def movedBy (forest : Forest Handler) (id : NodeId) : List NodeId :=
  if forest.isFragment id then forest.children id else [id]

/-- These nodes show something else when one node is appended to another. -/
def appendHolders (forest : Forest Handler) (parent child : NodeId) : List NodeId :=
  parent :: forest.above parent ++ (forest.movedBy child).flatMap forest.above

/-- This function climbs at most `limit` steps to the first node with a sibling after it. -/
def climb (forest : Forest Handler) (root : NodeId) : Nat → NodeId → Option NodeId
  | 0, _ => none
  | limit + 1, id =>
      if id = root then none
      else match forest.nextSibling? id with
        | some sibling => some sibling
        | none => match forest.parent? id with
          | some parent => climb forest root limit parent
          | none => none

/-- The next node that is not below this one. A path to the root is no longer than the forest. -/
def nextSkipping? (forest : Forest Handler) (root id : NodeId) : Option NodeId :=
  forest.climb root (forest.size + 1) id

/-- The next node is the first child, if there is one. -/
def next? (forest : Forest Handler) (root id : NodeId) : Option NodeId :=
  match forest.firstChild? id with
  | some child => some child
  | none => forest.nextSkipping? root id

/-- This function follows at most `limit` steps of a walk. -/
def walkFrom (forest : Forest Handler) (root : NodeId) : Nat → Option NodeId → List NodeId
  | 0, _ => []
  | _, none => []
  | limit + 1, some id => id :: walkFrom forest root limit (forest.next? root id)

/-- These are the nodes below a root, each one once. -/
def descendants (forest : Forest Handler) (root : NodeId) : List NodeId :=
  forest.walkFrom root forest.size (forest.next? root root)

end LiveMarkup.Forest
