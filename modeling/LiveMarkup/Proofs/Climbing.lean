import LiveMarkup.Forest.Order
import LiveMarkup.Proofs.Keeping

/-
This file says where a walk goes on: at the next sibling of a node, or else behind its parent.
-/

namespace LiveMarkup.Forest

variable {Handler : Type} {forest before after : Forest Handler} {limit root parent id : Nat}
  {path early rest : List NodeId}

theorem nextSkipping?_root (forest : Forest Handler) (root : NodeId) :
    forest.nextSkipping? root root = none := by
  unfold nextSkipping? climb
  exact if_pos rfl

theorem following?_append (new : id ∉ early) : following? id (early ++ id :: rest) = rest.head? := by
  induction early with
  | nil => exact if_pos rfl
  | cons first others inductionHypothesis =>
      obtain ⟨apart, later⟩ := not_or.mp (mt List.mem_cons.mpr new)
      rw [List.cons_append, following?, if_neg (Ne.symm apart), inductionHypothesis later]

theorem mem_of_following? {next : NodeId} {ids : List NodeId} (follows : following? id ids = some next) :
    next ∈ ids := by
  induction ids with
  | nil => cases follows
  | cons first rest inductionHypothesis =>
      rw [following?] at follows
      split at follows
      · exact List.mem_cons_of_mem _ (List.mem_of_mem_head? follows)
      · exact List.mem_cons_of_mem _ (inductionHypothesis follows)

theorem nextSibling?_eq_head? (found : forest.parent? id = some parent)
    (children : forest.children parent = early ++ id :: rest) (new : id ∉ early) :
    forest.nextSibling? id = rest.head? := by
  unfold nextSibling?
  rw [found, Option.bind_some, children, following?_append new]

/-- A walk enters the first of these nodes, or else it goes on behind their parent. -/
def onward (forest : Forest Handler) (root parent : NodeId) (nodes : List NodeId) : Option NodeId :=
  nodes.head?.or (forest.nextSkipping? root parent)

theorem next?_eq_onward (forest : Forest Handler) (root id : NodeId) :
    forest.next? root id = forest.onward root id (forest.children id) := by
  unfold next? onward firstChild?
  cases (forest.children id).head? <;> rfl

/-- A path leads from a node up to the root. -/
inductive Climbs (forest : Forest Handler) (root : NodeId) : NodeId → List NodeId → Prop
  | here : Climbs forest root root [root]
  | up {id parent : NodeId} {path : List NodeId} (apart : id ≠ root) (found : forest.parent? id = some parent)
      (climbs : Climbs forest root parent path) : Climbs forest root id (id :: path)

/-- The nodes of a path are different, and they were there before a limit. -/
structure Way (forest : Forest Handler) (limit : Nat) (root id : NodeId) (path : List NodeId) : Prop where
  climbs : forest.Climbs root id path
  distinct : path.Nodup
  small : ∀ node ∈ path, node < limit

theorem Climbs.congr (climbs : before.Climbs root id path)
    (same : ∀ node ∈ path, after.parent? node = before.parent? node) : after.Climbs root id path := by
  induction climbs with
  | here => exact .here
  | up apart found _ inductionHypothesis =>
      exact .up apart ((same _ List.mem_cons_self).trans found)
        (inductionHypothesis fun node member => same node (List.mem_cons_of_mem _ member))

theorem Climbs.root_mem (climbs : forest.Climbs root id path) : root ∈ path := by
  induction climbs with
  | here => exact List.mem_singleton_self _
  | up _ _ _ inductionHypothesis => exact List.mem_cons_of_mem _ inductionHypothesis

/-- A climb along a path needs no more steps than the path has nodes. -/
theorem Climbs.climb_succ {steps : Nat} (climbs : forest.Climbs root id path)
    (enough : path.length ≤ steps) : forest.climb root (steps + 1) id = forest.climb root steps id := by
  induction climbs generalizing steps with
  | here =>
      cases steps with
      | zero => cases enough
      | succ steps => rw [climb, if_pos rfl, climb, if_pos rfl]
  | up apart found _ inductionHypothesis =>
      cases steps with
      | zero => cases enough
      | succ steps =>
          rw [climb, if_neg apart, climb, if_neg apart]
          cases forest.nextSibling? _ with
          | some sibling => rfl
          | none =>
              rw [found]
              exact inductionHypothesis (Nat.le_of_succ_le_succ enough)

namespace Way

theorem length_le (way : forest.Way limit root id path) : path.length ≤ limit :=
  length_le_of_distinct way.distinct way.small

theorem congr (way : before.Way limit root id path)
    (same : ∀ node ∈ path, after.parent? node = before.parent? node) : after.Way limit root id path where
  climbs := way.climbs.congr same
  distinct := way.distinct
  small := way.small

/-- The way to a node stays when only this node is changed, and keeps its parent. -/
theorem kept (way : before.Way limit root id path) (here : after.parent? id = before.parent? id)
    (others : ∀ node ∈ path, node ≠ id → after.node? node = before.node? node) : after.Way limit root id path :=
  way.congr fun node member => by
    by_cases same : node = id
    · rw [same, here]
    · unfold parent?
      rw [others node member same]

theorem start (known : root < limit) : forest.Way limit root root [root] where
  climbs := .here
  distinct := List.pairwise_singleton _ root
  small node member := by
    cases List.mem_singleton.mp member
    exact known

theorem down (way : forest.Way limit root parent path) (found : forest.parent? id = some parent)
    (apart : id ≠ root) (new : id ∉ path) (below : id < limit) : forest.Way limit root id (id :: path) where
  climbs := .up apart found way.climbs
  distinct := List.nodup_cons.mpr ⟨new, way.distinct⟩
  small node member := by
    rcases List.mem_cons.mp member with rfl | above
    · exact below
    · exact way.small node above

/-- Behind a node below the end of a path come its later siblings. -/
theorem nextSkipping?_eq (way : forest.Way limit root parent path) (known : limit ≤ forest.size)
    (found : forest.parent? id = some parent) (apart : id ≠ root)
    (children : forest.children parent = early ++ id :: rest) (new : id ∉ early) :
    forest.nextSkipping? root id = forest.onward root parent rest := by
  unfold onward
  rw [nextSkipping?, climb, if_neg apart, nextSibling?_eq_head? found children new]
  cases rest with
  | cons next others => rfl
  | nil =>
      rw [List.head?_nil, Option.none_or, found]
      exact (way.climbs.climb_succ (Nat.le_trans way.length_le known)).symm

end Way

/-- Where parents are older than children, no path is longer than the numbers of its nodes. -/
theorem exists_way_of_hangs (reached : id = root ∨ forest.Hangs root id) (known : id < limit) :
    ∃ path, forest.Way limit root id path ∧ ∀ node ∈ path, node ≤ id := by
  have starts : ∀ {root}, root < limit → ∃ path, forest.Way limit root root path ∧ ∀ node ∈ path, node ≤ root :=
    fun inside => ⟨_, .start inside, fun _ member => Nat.le_of_eq (List.mem_singleton.mp member)⟩
  have climbs : ∀ {parent id}, forest.parent? id = some parent → parent < id → id < limit →
      (∃ path, forest.Way limit root parent path ∧ ∀ node ∈ path, node ≤ parent) →
        ∃ path, forest.Way limit root id path ∧ ∀ node ∈ path, node ≤ id := by
    rintro parent id found older inside ⟨path, way, small⟩
    have new : id ∉ path := fun member => Nat.not_le_of_gt older (small id member)
    refine ⟨_, way.down found (fun same => new (same ▸ way.climbs.root_mem)) new inside, ?_⟩
    intro node member
    rcases List.mem_cons.mp member with rfl | above
    · exact Nat.le_refl _
    · exact Nat.le_of_lt (Nat.lt_of_le_of_lt (small node above) older)
  rcases reached with rfl | hangs
  · exact starts known
  · induction hangs with
    | child found older => exact climbs found older known (starts (Nat.lt_trans older known))
    | under found older _ inductionHypothesis =>
        exact climbs found older known (inductionHypothesis (Nat.lt_trans older known))

/-- Behind a node come its later siblings. -/
theorem nextSkipping?_eq_onward (found : forest.parent? id = some parent) (apart : id ≠ root)
    (children : forest.children parent = early ++ id :: rest) (new : id ∉ early)
    (reached : parent = root ∨ forest.Hangs root parent) (known : parent < forest.size) :
    forest.nextSkipping? root id = forest.onward root parent rest := by
  obtain ⟨path, way, -⟩ := exists_way_of_hangs reached known
  exact way.nextSkipping?_eq (Nat.le_refl _) found apart children new

end LiveMarkup.Forest
