import LiveMarkup.Dictionary

/-
This file defines the nodes of live documents and the operations that move them.
-/

namespace LiveMarkup

/-- A node is known by its place in the forest. -/
abbrev NodeId := Nat

/-- An element has attributes, perhaps a value that was set, and handlers for kinds of events. -/
structure Element (Handler : Type) where
  tag : String
  attributes : Dictionary String := []
  value : Option String := none
  listeners : List (String × Handler) := []

inductive Content (Handler : Type) where
  | fragment
  | element (element : Element Handler)
  | text (content : String)
  | comment (content : String)

structure Node (Handler : Type) where
  content : Content Handler
  parent : Option NodeId := none
  children : List NodeId := []

/-- Nodes are numbered in the order of their creation and are never removed. -/
structure Forest (Handler : Type) where
  nodes : Array (Node Handler) := #[]

namespace Content

variable {Handler : Type}

def element? : Content Handler → Option (Element Handler)
  | .element found => some found
  | _ => none

def isFragment : Content Handler → Bool
  | .fragment => true
  | _ => false

def ofTag (tag : String) : Content Handler :=
  .element { tag := String.ofList (tag.toList.map Char.toLower) }

end Content

namespace Forest

variable {Handler : Type}

def empty : Forest Handler := {}

def size (forest : Forest Handler) : Nat := forest.nodes.size

def node? (forest : Forest Handler) (id : NodeId) : Option (Node Handler) := forest.nodes[id]?

def content? (forest : Forest Handler) (id : NodeId) : Option (Content Handler) :=
  (forest.node? id).map Node.content

def element? (forest : Forest Handler) (id : NodeId) : Option (Element Handler) :=
  (forest.content? id).bind Content.element?

def parent? (forest : Forest Handler) (id : NodeId) : Option NodeId :=
  (forest.node? id).bind Node.parent

def children (forest : Forest Handler) (id : NodeId) : List NodeId :=
  match forest.node? id with
  | some node => node.children
  | none => []

def firstChild? (forest : Forest Handler) (id : NodeId) : Option NodeId :=
  (forest.children id).head?

def isFragment (forest : Forest Handler) (id : NodeId) : Bool :=
  (forest.content? id).any Content.isFragment

/-- A new node has no parent and no children. -/
def create (forest : Forest Handler) (content : Content Handler) : NodeId × Forest Handler :=
  (forest.size, { nodes := forest.nodes.push { content } })

def modify (forest : Forest Handler) (id : NodeId) (change : Node Handler → Node Handler) :
    Forest Handler :=
  { nodes := forest.nodes.modify id change }

def setParent (forest : Forest Handler) (id : NodeId) (parent : Option NodeId) : Forest Handler :=
  forest.modify id fun node => { node with parent }

def setChildren (forest : Forest Handler) (id : NodeId) (children : List NodeId) :
    Forest Handler :=
  forest.modify id fun node => { node with children }

def setContent (forest : Forest Handler) (id : NodeId) (content : Content Handler) :
    Forest Handler :=
  forest.modify id fun node => { node with content }

@[simp] theorem size_create (forest : Forest Handler) (content : Content Handler) :
    (forest.create content).2.size = forest.size + 1 := by
  simp [create, size]

theorem node?_create (forest : Forest Handler) (content : Content Handler) :
    (forest.create content).2.node? (forest.create content).1 = some { content } := by
  simp [create, node?, size]

@[simp] theorem size_modify (forest : Forest Handler) (id : NodeId)
    (change : Node Handler → Node Handler) : (forest.modify id change).size = forest.size := by
  simp [modify, size]

theorem node?_modify (forest : Forest Handler) (id other : NodeId)
    (change : Node Handler → Node Handler) :
    (forest.modify id change).node? other =
      if id = other then (forest.node? other).map change else forest.node? other := by
  simp [modify, node?, Array.getElem?_modify]

theorem children_setParent (forest : Forest Handler) (id other : NodeId)
    (parent : Option NodeId) : (forest.setParent id parent).children other = forest.children other := by
  by_cases same : id = other
  · subst same
    cases found : forest.node? id <;> simp [setParent, children, node?_modify, found]
  · simp [setParent, children, node?_modify, same]

theorem parent?_setChildren (forest : Forest Handler) (id other : NodeId)
    (children : List NodeId) : (forest.setChildren id children).parent? other = forest.parent? other := by
  by_cases same : id = other
  · subst same
    cases found : forest.node? id <;> simp [setChildren, parent?, node?_modify, found]
  · simp [setChildren, parent?, node?_modify, same]

/-- A node that has a parent leaves its list of children. -/
def detach (forest : Forest Handler) (id : NodeId) : Forest Handler :=
  match forest.parent? id with
  | none => forest
  | some parent =>
      (forest.setChildren parent ((forest.children parent).filter (· ≠ id))).setParent id none

/-- A node leaves its parent and becomes the last child of another one. -/
def attach (forest : Forest Handler) (parent child : NodeId) : Forest Handler :=
  let detached := (forest.detach child).setParent child (some parent)
  detached.setChildren parent (detached.children parent ++ [child])

/-- A fragment is not attached itself. It gives its children away in order. -/
def append (forest : Forest Handler) (parent child : NodeId) : Forest Handler :=
  if forest.isFragment child then
    (forest.children child).foldl (fun current grandchild => current.attach parent grandchild)
      forest
  else forest.attach parent child

/-- All children lose their parent. -/
def clear (forest : Forest Handler) (id : NodeId) : Forest Handler :=
  (forest.children id).foldl (fun current child => current.setParent child none)
    (forest.setChildren id [])

end Forest

end LiveMarkup
