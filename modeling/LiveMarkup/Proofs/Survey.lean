import LiveMarkup.Proofs.Sites
import LiveMarkup.World.Binder

/-
This file surveys a tree without touching it: which nodes a binding has to visit, what it has to register
at each of them, and what is left there.
-/

namespace LiveMarkup

/-- A finite tree of nodes, each with what it holds. -/
inductive Tree where
  | node (id : NodeId) (content : Content Handler) (branches : List Tree)

namespace Content

/-- What is below an element whose text is bound is not surveyed. -/
def owns : Content Handler → Bool
  | .element found => Live.ownsChildren found.attributes
  | _ => false

end Content

namespace Tree

def id : Tree → NodeId
  | node id _ _ => id

def content : Tree → Content Handler
  | node _ content _ => content

mutual

/-- These are all nodes of a tree in document order. -/
def ids : Tree → List NodeId
  | node id _ branches => id :: idsAll branches

def idsAll : List Tree → List NodeId
  | [] => []
  | first :: rest => ids first ++ idsAll rest

end

mutual

/-- These nodes are visited, in document order. -/
def visits : Tree → List (NodeId × Content Handler)
  | node id content branches => (id, content) :: if content.owns then [] else visitsAll branches

def visitsAll : List Tree → List (NodeId × Content Handler)
  | [] => []
  | first :: rest => visits first ++ visitsAll rest

end

mutual

theorem mem_ids_of_mem_visits {visit : NodeId × Content Handler} :
    ∀ tree : Tree, visit ∈ tree.visits → visit.1 ∈ tree.ids
  | node id content branches, member => by
      unfold visits at member
      unfold ids
      rcases List.mem_cons.mp member with rfl | below
      · exact List.mem_cons_self
      · split at below
        · cases below
        · exact List.mem_cons_of_mem _ (mem_idsAll_of_mem_visitsAll branches below)

theorem mem_idsAll_of_mem_visitsAll {visit : NodeId × Content Handler} :
    ∀ trees : List Tree, visit ∈ visitsAll trees → visit.1 ∈ idsAll trees
  | [], member => by cases member
  | first :: rest, member => by
      unfold visitsAll at member
      unfold idsAll
      rcases List.mem_append.mp member with here | later
      · exact List.mem_append_left _ (mem_ids_of_mem_visits first here)
      · exact List.mem_append_right _ (mem_idsAll_of_mem_visitsAll rest later)

end

mutual

theorem length_visits_le : ∀ tree : Tree, tree.visits.length ≤ tree.ids.length
  | node id content branches => by
      unfold visits ids
      split
      · exact Nat.succ_le_succ (Nat.zero_le _)
      · exact Nat.succ_le_succ (length_visitsAll_le branches)

theorem length_visitsAll_le : ∀ trees : List Tree, (visitsAll trees).length ≤ (idsAll trees).length
  | [] => Nat.le_refl _
  | first :: rest => by
      unfold visitsAll idsAll
      rw [List.length_append, List.length_append]
      exact Nat.add_le_add (length_visits_le first) (length_visitsAll_le rest)

end

theorem mem_ids_self (tree : Tree) : tree.id ∈ tree.ids := by
  cases tree with
  | node id content branches => exact List.mem_cons_self

theorem mem_visits_self (tree : Tree) : (tree.id, tree.content) ∈ tree.visits := by
  cases tree with
  | node id content branches => exact List.mem_cons_self

theorem mem_idsAll_of_mem {tree : Tree} {trees : List Tree} (member : tree ∈ trees) {id : NodeId}
    (below : id ∈ tree.ids) : id ∈ idsAll trees := by
  induction trees with
  | nil => cases member
  | cons first rest inductionHypothesis =>
      unfold idsAll
      rcases List.mem_cons.mp member with rfl | later
      · exact List.mem_append_left _ below
      · exact List.mem_append_right _ (inductionHypothesis later)

end Tree

/-- A binding registers an effect, or it makes an element listen. -/
inductive Finding where
  | effect (label : String) (task : Task)
  | listener (node : NodeId) (kind : String) (handler : Handler)

namespace Finding

def effect? : Finding → Option (String × Task)
  | effect label task => some (label, task)
  | listener .. => none

/-- The handlers that one node gets. -/
def handlerAt? (id : NodeId) : Finding → Option (String × Handler)
  | effect .. => none
  | listener node kind handler => if node = id then some (kind, handler) else none

def isListener : Finding → Bool
  | effect .. => false
  | listener .. => true

/-- These expressions are evaluated at once. Events are evaluated when they are heard. -/
def sources : Finding → List String
  | effect _ (.interpolation _ _ source) =>
      (Interpolation.segments source.toList).filterMap fun segment =>
        match segment with
        | .literal _ => none
        | .expression source => some (String.ofList source)
  | effect _ (.textBinding _ _ source) => [source]
  | effect _ (.valueBinding _ _ source) => [source]
  | _ => []

end Finding

/-- This is what an attribute of an element makes a binding register. -/
def Element.findings (state : TargetId) (id : NodeId) (element : Element Handler)
    (entry : String × String) : List Finding :=
  match Directive.ofName? entry.1 with
  | some .text => [.effect ("v-text=\"" ++ entry.2 ++ "\"") (.textBinding state id entry.2)]
  | some .model =>
      if valueTags.contains element.tag then
        [.effect ("v-model=\"" ++ Text.trimString entry.2 ++ "\"")
            (.valueBinding state id (Text.trimString entry.2)),
          .listener id "input" (.storeInput state (Text.trimString entry.2)
            (Live.isNumericType (element.attributes.get? "type")))]
      else []
  | some (.event kind) => if kind = "" then [] else [.listener id kind (.evaluate state entry.2)]
  | none => []

/-- This is what a visited node makes a binding register, attribute by attribute. -/
def Content.findings (state : TargetId) (id : NodeId) : Content Handler → List Finding
  | .text content =>
      if Interpolation.hasSpan content then
        [.effect ("\x7b\x7b \x7d\x7d in " ++ Text.quoted (Text.trimString content))
          (.interpolation state id content)]
      else []
  | .element found => found.attributes.flatMap (found.findings state id)
  | .comment _ => []
  | .fragment => []

/-- This is what a scan of a tree finds, in document order. -/
def Tree.findings (state : TargetId) (tree : Tree) : List Finding :=
  tree.visits.flatMap fun visit => visit.2.findings state visit.1

/-- A visited node keeps all but the directives that it has been bound to. It listens to more, and it may
show another text or value. -/
inductive Content.Bound (state : TargetId) (id : NodeId) : Content Handler → Content Handler → Prop
  | element (found : Element Handler) (value : Option String)
      (kept : value = found.value ∨ ∃ entry ∈ found.attributes, Directive.ofName? entry.1 = some .model) :
      Bound state id (.element found) (.element {
        tag := found.tag
        attributes := Markup.keptAttributes found.tag found.attributes
        value
        listeners := found.listeners ++
          (found.attributes.flatMap (found.findings state id)).filterMap (Finding.handlerAt? id) })
  | shown (old new : String) (span : Interpolation.hasSpan old = true) : Bound state id (.text old) (.text new)
  | text (content : String) (plain : Interpolation.hasSpan content = false) :
      Bound state id (.text content) (.text content)
  | comment (content : String) : Bound state id (.comment content) (.comment content)
  | fragment : Bound state id .fragment .fragment

namespace Forest

mutual

/-- A tree grows in a forest below a parent, if its root has one. -/
def Bears (forest : Forest Handler) (parent : Option NodeId) : Tree → Prop
  | .node id content branches =>
      forest.node? id = some { content, parent, children := branches.map Tree.id } ∧
        forest.BearsAll id branches

def BearsAll (forest : Forest Handler) (parent : NodeId) : List Tree → Prop
  | [] => True
  | first :: rest => forest.Bears (some parent) first ∧ forest.BearsAll parent rest

end

variable {forest before after : Forest Handler}

mutual

/-- A tree is still there if its nodes are as they were. -/
theorem Bears.congr : ∀ (tree : Tree) {parent : Option NodeId},
    (∀ id ∈ tree.ids, after.node? id = before.node? id) → before.Bears parent tree →
      after.Bears parent tree
  | .node id content branches, parent, same, bears => by
      unfold Tree.ids at same
      unfold Bears at bears ⊢
      refine ⟨(same id List.mem_cons_self).trans bears.1, ?_⟩
      exact BearsAll.congr branches (fun other member => same other (List.mem_cons_of_mem _ member)) bears.2

theorem BearsAll.congr : ∀ (trees : List Tree) {parent : NodeId},
    (∀ id ∈ Tree.idsAll trees, after.node? id = before.node? id) →
      before.BearsAll parent trees → after.BearsAll parent trees
  | [], _, _, _ => trivial
  | first :: rest, parent, same, bears => by
      unfold Tree.idsAll at same
      unfold BearsAll at bears ⊢
      exact ⟨Bears.congr first (fun id member => same id (List.mem_append_left _ member)) bears.1,
        BearsAll.congr rest (fun id member => same id (List.mem_append_right _ member)) bears.2⟩

end

mutual

theorem Bears.lt_size : ∀ (tree : Tree) {parent : Option NodeId}, forest.Bears parent tree →
    ∀ id ∈ tree.ids, id < forest.size
  | .node id content branches, parent, bears, other, member => by
      unfold Bears at bears
      unfold Tree.ids at member
      rcases List.mem_cons.mp member with rfl | below
      · exact (Array.getElem?_eq_some_iff.mp bears.1).1
      · exact BearsAll.lt_size branches bears.2 other below

theorem BearsAll.lt_size : ∀ (trees : List Tree) {parent : NodeId}, forest.BearsAll parent trees →
    ∀ id ∈ Tree.idsAll trees, id < forest.size
  | [], _, _, _, impossible => by cases impossible
  | first :: rest, parent, bears, other, member => by
      unfold BearsAll at bears
      unfold Tree.idsAll at member
      rcases List.mem_append.mp member with here | later
      · exact Bears.lt_size first bears.1 other here
      · exact BearsAll.lt_size rest bears.2 other later

end

/-- The root of a tree tells what is above the tree. -/
theorem parent?_of_bears {tree : Tree} {parent : Option NodeId} (bears : forest.Bears parent tree) :
    forest.parent? tree.id = parent := by
  cases tree with
  | node id content branches =>
      unfold Bears at bears
      unfold Tree.id parent?
      rw [bears.1]
      rfl

end Forest

end LiveMarkup
