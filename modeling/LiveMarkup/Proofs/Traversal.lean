import LiveMarkup.Proofs.Binding
import LiveMarkup.Proofs.Visits

/-
This file shows that a binding is a scan of the tree as it was before, although the walk finds its way in the
tree that it changes.
-/

namespace LiveMarkup

open Live

/-- Some nodes are bound one after the other, wherever they are. -/
def Live.bindEach (run : Runner) (state : TargetId) : List NodeId → Bindings → Live Bindings
  | [], bindings => pure bindings
  | id :: rest, bindings => do
      let (bound, _) ← bindNode run state id bindings
      bindEach run state rest bound

theorem Live.bindEach_append {run : Runner} {state : TargetId} {first rest : List NodeId}
    {bindings middle bound : Bindings} {world between after : World}
    (early : bindEach run state first bindings world = .ok middle between)
    (late : bindEach run state rest middle between = .ok bound after) :
    bindEach run state (first ++ rest) bindings world = .ok bound after := by
  induction first generalizing bindings world with
  | nil =>
      cases early
      exact late
  | cons id others inductionHypothesis =>
      obtain ⟨reached, here, binds, continued⟩ := bind_eq_ok.mp early
      exact (bind_of_ok binds).trans (inductionHypothesis continued)

namespace Forest

variable {before after : Forest Handler}

/-- A visited node has been bound. It keeps its parent, and its children unless its text is bound. -/
def Rests (state : TargetId) (before after : Forest Handler) (visit : NodeId × Content Handler) : Prop :=
  ∃ parent children now inner,
    before.node? visit.1 = some { content := visit.2, parent, children } ∧
    after.node? visit.1 = some { content := now, parent, children := inner } ∧
    visit.2.Bound state visit.1 now ∧ (visit.2.owns = false → inner = children)

theorem Rests.earlier {middle : Forest Handler} {state : TargetId} {visit : NodeId × Content Handler}
    (rests : Rests state middle after visit) (same : middle.node? visit.1 = before.node? visit.1) :
    Rests state before after visit := by
  obtain ⟨parent, children, now, inner, old, new, bound, kept⟩ := rests
  exact ⟨parent, children, now, inner, same.symm.trans old, new, bound, kept⟩

theorem Rests.later {middle : Forest Handler} {state : TargetId} {visit : NodeId × Content Handler}
    (rests : Rests state before middle visit) (same : after.node? visit.1 = middle.node? visit.1) :
    Rests state before after visit := by
  obtain ⟨parent, children, now, inner, old, new, bound, kept⟩ := rests
  exact ⟨parent, children, now, inner, old, same.trans new, bound, kept⟩

theorem Rests.parent_eq {state : TargetId} {visit : NodeId × Content Handler} (rests : Rests state before after visit) :
    after.parent? visit.1 = before.parent? visit.1 := by
  obtain ⟨parent, children, now, inner, old, new, -⟩ := rests
  unfold parent?
  rw [old, new]
  rfl

theorem Rests.children_eq {state : TargetId} {visit : NodeId × Content Handler} (rests : Rests state before after visit)
    (owns : visit.2.owns = false) : after.children visit.1 = before.children visit.1 := by
  obtain ⟨parent, children, now, inner, old, new, -, kept⟩ := rests
  unfold Forest.children
  rw [old, new]
  exact kept owns

end Forest

namespace World

variable {depth limit : Nat} {state : TargetId} {findings : List Finding} {origin world : World}
  {root id : NodeId} {own inside ids : List NodeId} {visits more : List (NodeId × Content Handler)}
  {bindings : Bindings}

/-- A walk binds nodes one after the other and goes on elsewhere. Each of them is bound as it was found. -/
def Traverses (origin : World) (depth limit : Nat) (state : TargetId) (findings : List Finding)
    (root : NodeId) (own : List NodeId) (visits : List (NodeId × Content Handler)) (start : Option NodeId)
    (goal : Forest Handler → Option NodeId) (bindings : Bindings) (world : World) : Prop :=
  ∃ bound after,
    bindEach (runTo (depth + 1)) state (visits.map Prod.fst) bindings world = .ok bound after ∧
    (∀ rest, bindFrom (runTo (depth + 1)) state root (visits.length + rest) start bindings world =
      bindFrom (runTo (depth + 1)) state root rest (goal after.forest) bound after) ∧
    origin.Comes (runTo depth) state findings after ∧
    world.Scans limit own (visits.map Prod.fst)
      (visits.flatMap fun visit => visit.2.findings state visit.1) bindings bound after ∧
    ∀ visit ∈ visits, Forest.Rests state world.forest after.forest visit

/-- A walk over some nodes goes on with a walk over other nodes. -/
theorem Traverses.trans {start : Option NodeId} {goal last : Forest Handler → Option NodeId}
    (early : origin.Traverses depth limit state findings root own visits start goal bindings world)
    (late : ∀ bound between, origin.Comes (runTo depth) state findings between →
      world.Scans limit own (visits.map Prod.fst)
        (visits.flatMap fun visit => visit.2.findings state visit.1) bindings bound between →
      (∀ visit ∈ visits, Forest.Rests state world.forest between.forest visit) →
      origin.Traverses depth limit state findings root inside more (goal between.forest) last bound between)
    (first : ∀ visit ∈ visits, visit.1 ∈ own) (second : ∀ visit ∈ more, visit.1 ∈ inside)
    (apart : ∀ id ∈ own, id ∉ inside) (small : ∀ id ∈ own ++ inside, id < limit) :
    origin.Traverses depth limit state findings root (own ++ inside) (visits ++ more) start last
      bindings world := by
  obtain ⟨middle, between, binds, walks, reached, scans, rests⟩ := early
  obtain ⟨bound, after, bindsOn, walksOn, final, scansOn, restsOn⟩ := late middle between reached scans rests
  refine ⟨bound, after, ?_, fun rest => ?_, final, ?_, fun visit member => ?_⟩
  · rw [List.map_append]
    exact bindEach_append binds bindsOn
  · rw [List.length_append, Nat.add_assoc, walks, walksOn]
  · rw [List.map_append, List.flatMap_append]
    exact (scans.widen (fun _ => List.mem_append_left _) fun _ => List.mem_append_left _).trans
      (scansOn.widen (fun _ => List.mem_append_right _) fun _ => List.mem_append_right _)
  · rcases List.mem_append.mp member with old | new
    · have known := first visit old
      exact (rests visit old).later
        (scansOn.others visit.1 (small _ (List.mem_append_left _ known)) (apart _ known))
    · have known := second visit new
      exact (restsOn visit new).earlier
        (scans.others visit.1 (small _ (List.mem_append_right _ known)) fun again => apart _ again known)

/-- A binding has come to nodes that it has not visited yet. -/
structure Awaiting (origin : World) (depth limit : Nat) (state : TargetId) (findings : List Finding)
    (ids : List NodeId) (visits : List (NodeId × Content Handler)) (world : World) : Prop where
  comes : origin.Comes (runTo depth) state findings world
  reachable : world.Reachable
  known : limit ≤ world.forest.size
  small : ∀ id ∈ ids, id < limit
  distinct : ids.Nodup
  listed : ∀ visit ∈ visits, ∀ finding ∈ visit.2.findings state visit.1, finding ∈ findings

theorem Awaiting.part (awaiting : origin.Awaiting depth limit state findings ids visits world)
    (within : own.Sublist ids) (some : ∀ visit ∈ more, visit ∈ visits) :
    origin.Awaiting depth limit state findings own more world where
  comes := awaiting.comes
  reachable := awaiting.reachable
  known := awaiting.known
  small id member := awaiting.small id (within.subset member)
  distinct := awaiting.distinct.sublist within
  listed visit member := awaiting.listed visit (some visit member)

/-- What has not been visited is still awaited when other nodes have been bound. -/
theorem Awaiting.continued {found : List Finding} {visited : List NodeId} {bound : Bindings} {after : World}
    (awaiting : origin.Awaiting depth limit state findings ids visits world)
    (comes : origin.Comes (runTo depth) state findings after)
    (scans : world.Scans limit own visited found bindings bound after) :
    origin.Awaiting depth limit state findings ids visits after where
  comes := comes
  reachable := scans.later.reachable awaiting.reachable
  known := Nat.le_trans awaiting.known scans.later.nodes
  small := awaiting.small
  distinct := awaiting.distinct
  listed := awaiting.listed

variable (root bindings) in
/-- A walk binds a node and goes on behind it, or below it. -/
theorem traverses_node {content : Content Handler} {parent : Option NodeId} {children : List NodeId}
    (harmless : origin.Harmless (runTo depth) state findings)
    (awaiting : origin.Awaiting depth limit state findings own [(id, content)] world) (self : id ∈ own)
    (apart : id ∉ children) (managed : content.owns = true → ∀ child ∈ children, child ∈ own)
    (found : world.forest.node? id = some { content, parent, children }) :
    origin.Traverses depth limit state findings root own [(id, content)] (some id)
      (fun forest => if content.owns then forest.nextSkipping? root id else forest.next? root id)
      bindings world := by
  obtain ⟨bound, after, binds, final, scans, now, inner, last, bared, kept⟩ := scans_node harmless
    awaiting.comes awaiting.reachable awaiting.known (awaiting.small id self) self apart managed
    (awaiting.listed _ (List.mem_singleton_self _)) found bindings
  refine ⟨bound, after, ?_, fun rest => ?_, final, ?_, fun visit member => ?_⟩
  · exact bind_of_ok binds
  · rw [List.length_singleton, Nat.add_comm 1 rest, bindFrom_succ rest binds]
  · rw [List.flatMap_singleton]
    exact scans
  · cases List.mem_singleton.mp member
    exact ⟨parent, children, now, inner, found, last, bared, kept⟩

/-- A walk goes on below a node that lets its children be visited. -/
theorem traverses_below {content : Content Handler} {branches : List Tree} {parent : Option NodeId}
    {path : List NodeId} {last : Forest Handler → Option NodeId}
    (harmless : origin.Harmless (runTo depth) state findings)
    (awaiting : origin.Awaiting depth limit state findings (id :: Tree.idsAll branches)
      ((id, content) :: Tree.visitsAll branches) world)
    (bears : world.forest.Bears parent (.node id content branches))
    (way : world.forest.Way limit root id (id :: path)) (owns : content.owns = false)
    (children : ∀ bound between,
      origin.Awaiting depth limit state findings (Tree.idsAll branches) (Tree.visitsAll branches) between →
      between.forest.BearsAll id branches → between.forest.Way limit root id (id :: path) →
      between.forest.children id = branches.map Tree.id →
      origin.Traverses depth limit state findings root (Tree.idsAll branches) (Tree.visitsAll branches)
        (between.forest.onward root id (branches.map Tree.id)) last bound between) :
    origin.Traverses depth limit state findings root (id :: Tree.idsAll branches)
      ((id, content) :: Tree.visitsAll branches) (some id) last bindings world := by
  unfold Forest.Bears at bears
  obtain ⟨new, -⟩ := List.nodup_cons.mp awaiting.distinct
  have leaf : id ∉ branches.map Tree.id := by
    intro member
    obtain ⟨branch, listed, same⟩ := List.mem_map.mp member
    exact new (same ▸ Tree.mem_idsAll_of_mem listed (Tree.mem_ids_self branch))
  have alone : origin.Awaiting depth limit state findings [id] [(id, content)] world :=
    awaiting.part (List.singleton_sublist.mpr List.mem_cons_self) fun visit member =>
      List.mem_cons.mpr (Or.inl (List.mem_singleton.mp member))
  have here := traverses_node root bindings harmless alone (List.mem_singleton_self _) leaf
    (fun impossible => by rw [owns] at impossible; cases impossible) bears.1
  rw [owns] at here
  refine Traverses.trans here (fun bound between reached scans rests => ?_) ?_ ?_ ?_ awaiting.small
  · have rested := rests _ (List.mem_singleton_self _)
    have others : ∀ node < limit, node ≠ id → between.forest.node? node = world.forest.node? node :=
      fun node small different => scans.others node small (mt List.mem_singleton.mp different)
    have inside : ∀ node ∈ Tree.idsAll branches, between.forest.node? node = world.forest.node? node :=
      fun node member => others node (awaiting.small node (List.mem_cons_of_mem _ member))
        fun same => new (same ▸ member)
    have kept : between.forest.children id = branches.map Tree.id := by
      refine (rested.children_eq owns).trans ?_
      unfold Forest.children
      rw [bears.1]
    have goes : between.forest.next? root id = between.forest.onward root id (branches.map Tree.id) := by
      rw [Forest.next?_eq_onward, kept]
    rw [if_neg Bool.false_ne_true, goes]
    refine children bound between ?_ (Forest.BearsAll.congr branches inside bears.2) ?_ kept
    · exact (awaiting.part (List.sublist_cons_self _ _) fun _ => List.mem_cons_of_mem _).continued reached scans
    · exact way.kept rested.parent_eq fun node member => others node (way.small node member)
  · intro visit member
    cases List.mem_singleton.mp member
    exact List.mem_singleton_self _
  · exact fun visit => Tree.mem_idsAll_of_mem_visitsAll branches
  · intro node member
    rw [List.mem_singleton.mp member]
    exact new

/-- A walk over a tree goes on beside it. -/
theorem traverses_beside {first : Tree} {rest : List Tree} {parent : NodeId} {path early : List NodeId}
    {last : Forest Handler → Option NodeId}
    (awaiting : origin.Awaiting depth limit state findings (first.ids ++ Tree.idsAll rest)
      (first.visits ++ Tree.visitsAll rest) world)
    (bears : world.forest.BearsAll parent (first :: rest))
    (way : world.forest.Way limit root parent (parent :: path))
    (apart : ∀ node ∈ parent :: path, node ∉ first.ids ++ Tree.idsAll rest)
    (children : world.forest.children parent = early ++ first.id :: rest.map Tree.id) (new : first.id ∉ early)
    (here : origin.Traverses depth limit state findings root first.ids first.visits (some first.id)
      (·.nextSkipping? root first.id) bindings world)
    (siblings : ∀ bound between,
      origin.Awaiting depth limit state findings (Tree.idsAll rest) (Tree.visitsAll rest) between →
      between.forest.BearsAll parent rest → between.forest.Way limit root parent (parent :: path) →
      between.forest.children parent = early ++ [first.id] ++ rest.map Tree.id →
      origin.Traverses depth limit state findings root (Tree.idsAll rest) (Tree.visitsAll rest)
        (between.forest.onward root parent (rest.map Tree.id)) last bound between) :
    origin.Traverses depth limit state findings root (first.ids ++ Tree.idsAll rest)
      (first.visits ++ Tree.visitsAll rest) (some first.id) last bindings world := by
  unfold Forest.BearsAll at bears
  obtain ⟨-, -, disjoint⟩ := List.nodup_append.mp awaiting.distinct
  have self : first.id ∈ first.ids ++ Tree.idsAll rest := List.mem_append_left _ (Tree.mem_ids_self first)
  have different : first.id ≠ root := fun same => apart root way.climbs.root_mem (same ▸ self)
  refine Traverses.trans here (fun bound between reached scans rests => ?_) ?_ ?_ ?_ awaiting.small
  · have same : ∀ node ∈ parent :: path, between.forest.node? node = world.forest.node? node :=
      fun node above => scans.others node (way.small node above)
        fun inside => apart node above (List.mem_append_left _ inside)
    have onwards : between.forest.Way limit root parent (parent :: path) := by
      refine way.congr fun node above => ?_
      unfold Forest.parent?
      rw [same node above]
    have listed : between.forest.children parent = early ++ first.id :: rest.map Tree.id := by
      rw [← children]
      unfold Forest.children
      rw [same parent List.mem_cons_self]
    have found : between.forest.parent? first.id = some parent :=
      (rests _ (Tree.mem_visits_self first)).parent_eq.trans (Forest.parent?_of_bears bears.1)
    have goes := onwards.nextSkipping?_eq (Nat.le_trans awaiting.known scans.later.nodes) found different listed new
    rw [goes]
    refine siblings bound between ?_ (Forest.BearsAll.congr rest (fun node inside => ?_) bears.2) onwards ?_
    · exact (awaiting.part (List.sublist_append_right _ _) fun _ => List.mem_append_right _).continued reached scans
    · exact scans.others node (awaiting.small node (List.mem_append_right _ inside))
        fun before => disjoint node before node inside rfl
    · rw [listed, List.append_assoc]
      rfl
  · exact fun visit => Tree.mem_ids_of_mem_visits first
  · exact fun visit => Tree.mem_idsAll_of_mem_visitsAll rest
  · exact fun node member again => disjoint node member node again rfl

mutual

/-- A walk over a tree visits what a scan of the tree visits. -/
theorem traverses_tree (harmless : origin.Harmless (runTo depth) state findings) :
    ∀ (tree : Tree) (parent : Option NodeId) (path : List NodeId) (bindings : Bindings) (world : World),
    origin.Awaiting depth limit state findings tree.ids tree.visits world →
    world.forest.Bears parent tree → world.forest.Way limit root tree.id (tree.id :: path) →
    (∀ node ∈ path, node ∉ tree.ids) →
    origin.Traverses depth limit state findings root tree.ids tree.visits (some tree.id)
      (·.nextSkipping? root tree.id) bindings world
  | .node id content branches, parent, path, bindings, world, awaiting, bears, way, apart => by
      unfold Tree.ids Tree.visits at awaiting
      unfold Tree.ids at apart
      unfold Tree.ids Tree.visits Tree.id
      unfold Tree.id at way
      obtain ⟨new, -⟩ := List.nodup_cons.mp awaiting.distinct
      cases owns : content.owns with
      | true =>
          rw [owns, if_pos rfl] at awaiting
          rw [if_pos rfl]
          unfold Forest.Bears at bears
          have below : ∀ child ∈ branches.map Tree.id, child ∈ Tree.idsAll branches := by
            intro child member
            obtain ⟨branch, listed, rfl⟩ := List.mem_map.mp member
            exact Tree.mem_idsAll_of_mem listed (Tree.mem_ids_self branch)
          have here := traverses_node root bindings harmless awaiting List.mem_cons_self
            (fun member => new (below id member))
            (fun _ child member => List.mem_cons_of_mem _ (below child member)) bears.1
          rw [owns] at here
          exact here
      | false =>
          rw [owns, if_neg Bool.false_ne_true] at awaiting
          rw [if_neg Bool.false_ne_true]
          refine traverses_below harmless awaiting bears way owns fun bound between awaits bearing onward children => ?_
          refine traverses_trees harmless branches id path [] bound between awaits bearing onward ?_ children
            fun _ impossible => by cases impossible
          intro node member
          rcases List.mem_cons.mp member with rfl | above
          · exact new
          · exact fun again => apart node above (List.mem_cons_of_mem _ again)

/-- A walk over neighbouring trees goes on behind their parent. -/
theorem traverses_trees (harmless : origin.Harmless (runTo depth) state findings) :
    ∀ (trees : List Tree) (parent : NodeId) (path early : List NodeId) (bindings : Bindings) (world : World),
    origin.Awaiting depth limit state findings (Tree.idsAll trees) (Tree.visitsAll trees) world →
    world.forest.BearsAll parent trees → world.forest.Way limit root parent (parent :: path) →
    (∀ node ∈ parent :: path, node ∉ Tree.idsAll trees) →
    world.forest.children parent = early ++ trees.map Tree.id →
    (∀ node ∈ early, node ∉ Tree.idsAll trees) →
    origin.Traverses depth limit state findings root (Tree.idsAll trees) (Tree.visitsAll trees)
      (world.forest.onward root parent (trees.map Tree.id)) (·.nextSkipping? root parent) bindings world
  | [], parent, path, early, bindings, world, awaiting, _, _, _, _, _ => by
      refine ⟨bindings, world, rfl, fun rest => ?_, awaiting.comes, .refl world,
        fun _ impossible => by cases impossible⟩
      rw [Tree.visitsAll, List.length_nil, Nat.zero_add]
      rfl
  | first :: rest, parent, path, early, bindings, world, awaiting, bears, way, apart, children, older => by
      unfold Tree.idsAll Tree.visitsAll at awaiting
      unfold Tree.idsAll at apart older
      unfold Tree.idsAll Tree.visitsAll
      obtain ⟨-, -, disjoint⟩ := List.nodup_append.mp awaiting.distinct
      have borne : world.forest.Bears (some parent) first := by
        unfold Forest.BearsAll at bears
        exact bears.1
      have self : first.id ∈ first.ids ++ Tree.idsAll rest := List.mem_append_left _ (Tree.mem_ids_self first)
      have different : first.id ≠ root := fun same => apart root way.climbs.root_mem (same ▸ self)
      have down : world.forest.Way limit root first.id (first.id :: parent :: path) :=
        way.down (Forest.parent?_of_bears borne) different (fun above => apart _ above self) (awaiting.small _ self)
      have here := traverses_tree harmless first (some parent) (parent :: path) bindings world
        (awaiting.part (List.sublist_append_left _ _) fun _ => List.mem_append_left _) borne down
        fun node above inside => apart node above (List.mem_append_left _ inside)
      refine traverses_beside awaiting bears way apart children (fun member => older _ member self) here
        fun bound between awaits bearing onward listed => ?_
      refine traverses_trees harmless rest parent path (early ++ [first.id]) bound between awaits bearing onward ?_
        listed fun node member inside => ?_
      · exact fun node above inside => apart node above (List.mem_append_right _ inside)
      · rcases List.mem_append.mp member with before | last
        · exact older node before (List.mem_append_right _ inside)
        · rw [List.mem_singleton.mp last] at inside
          exact disjoint _ (Tree.mem_ids_self first) _ inside rfl

end

end World

/-- Binding comes to an end, whatever the expressions evaluate to. It does what binding the nodes of a scan
one after the other does, although it looks up each next node in the tree that it changes. The effects are
registered in the order of the scan, the visited nodes lose the directives that were bound and nothing else,
and all other nodes of the document are as they were. -/
theorem bind_follows_scan {depth : Nat} {state : TargetId} {world : World} {parent : Option NodeId} {tree : Tree}
    (reachable : world.Reachable) (bears : world.forest.Bears parent tree) (distinct : tree.ids.Nodup)
    (harmless : world.Harmless (runTo depth) state (tree.findings state)) :
    ∃ bindings after,
      Live.bind (runTo (depth + 1)) tree.id state world = .ok bindings after ∧
      (do
        let bindings ← bindEach (runTo (depth + 1)) state (tree.visits.map Prod.fst) {}
        note (.bound bindings.effects.length bindings.listeners)
        pure bindings) world = .ok bindings after ∧
      world.Scans world.forest.size tree.ids (tree.visits.map Prod.fst) (tree.findings state) {} bindings
        after ∧
      ∀ visit ∈ tree.visits, Forest.Rests state world.forest after.forest visit := by
  have small := Forest.Bears.lt_size tree bears
  have awaiting : world.Awaiting depth world.forest.size state (tree.findings state) tree.ids tree.visits
      world :=
    ⟨.start, reachable, Nat.le_refl _, small, distinct,
      fun visit member finding found => List.mem_flatMap.mpr ⟨visit, member, found⟩⟩
  have alone : world.forest.Way world.forest.size tree.id tree.id [tree.id] :=
    ⟨.here, List.pairwise_singleton _ _, fun node member =>
      List.mem_singleton.mp member ▸ small _ (Tree.mem_ids_self tree)⟩
  obtain ⟨bindings, after, binds, walks, -, scans, rests⟩ := World.traverses_tree harmless tree parent [] {}
    world awaiting bears alone fun _ impossible => by cases impossible
  have few : tree.visits.length ≤ world.forest.size :=
    Nat.le_trans (Tree.length_visits_le tree) (Forest.length_le_of_distinct distinct small)
  obtain ⟨rest, steps⟩ := Nat.exists_eq_add_of_le (Nat.le_trans few (Nat.le_add_right _ patience))
  have ends : bindFrom (runTo (depth + 1)) state tree.id rest (after.forest.nextSkipping? tree.id tree.id)
      bindings after = .ok bindings after := by
    rw [Forest.nextSkipping?_root]
    cases rest <;> rfl
  have walked : bindFrom (runTo (depth + 1)) state tree.id (world.forest.size + patience) (some tree.id) {}
      world = .ok bindings after := by
    rw [steps, walks, ends]
  let notice : Notice := .bound bindings.effects.length bindings.listeners
  refine ⟨bindings, after.note notice, ?_, bind_of_ok binds, ?_, rests⟩
  · unfold Live.bind
    rw [get_bind, bind_of_ok walked]
    rfl
  · have noted : after.Scans world.forest.size tree.ids (tree.visits.map Prod.fst) [] bindings bindings
        (after.note notice) :=
      .quietly (World.later_note after notice) (fun _ _ _ => rfl) (fun _ _ _ => rfl) rfl rfl rfl
    have whole := scans.trans noted
    rw [List.append_nil] at whole
    exact whole

/-- A page has an element with nodes before and behind it. -/
def scannedPage : World where
  targets := #[some { values := [("name", .string "n")] }]
  forest := ⟨#[
    { content := .element { tag := "main" }, children := [1, 2, 9] },
    { content := .text "\x7b\x7b before \x7d\x7d", parent := some 0 },
    { content := .element {
        tag := "div", attributes := [("v-model", "name"), ("id", "root"), ("v-on:", "go")] },
      parent := some 0, children := [3, 4, 6, 7, 8] },
    { content := .text "\x7b\x7b missing \x7d\x7d", parent := some 2 },
    { content := .element { tag := "p", attributes := [("class", "c"), ("v-text", "name.first")] },
      parent := some 2, children := [5] },
    { content := .text "\x7b\x7b hidden \x7d\x7d", parent := some 4 },
    { content := .comment "\x7b\x7b none \x7d\x7d", parent := some 2 },
    { content := .element { tag := "input", attributes := [("v-model", " name "), ("type", "text")] },
      parent := some 2 },
    { content := .element { tag := "b", attributes := [("v-on:click", "pick()"), ("v-on:key", "go()")] },
      parent := some 2 },
    { content := .text "\x7b\x7b behind \x7d\x7d", parent := some 0 }]⟩

/-- This is the element of the page with everything below it. -/
def scannedTree : Tree :=
  .node 2 (.element {
      tag := "div", attributes := [("v-model", "name"), ("id", "root"), ("v-on:", "go")] }) [
    .node 3 (.text "\x7b\x7b missing \x7d\x7d") [],
    .node 4 (.element { tag := "p", attributes := [("class", "c"), ("v-text", "name.first")] }) [
      .node 5 (.text "\x7b\x7b hidden \x7d\x7d") []],
    .node 6 (.comment "\x7b\x7b none \x7d\x7d") [],
    .node 7 (.element { tag := "input", attributes := [("v-model", " name "), ("type", "text")] }) [],
    .node 8 (.element { tag := "b", attributes := [("v-on:click", "pick()"), ("v-on:key", "go()")] }) []]

theorem scan_of_scannedPage : ∃ bindings after,
    Live.bind (runTo 1) 2 0 scannedPage = .ok bindings after ∧ bindings.effects.length = 3 ∧
    bindings.listeners = 3 ∧ after.forest.node? 9 = scannedPage.forest.node? 9 := by
  have reachable : scannedPage.Reachable := ⟨[], .here⟩
  have bears : scannedPage.forest.Bears (some 0) scannedTree := by
    simp only [scannedTree, Forest.Bears, Forest.BearsAll, List.map, Tree.id, and_true]
    exact ⟨rfl, rfl, ⟨rfl, rfl⟩, rfl, rfl, rfl⟩
  have free : ∀ source ∈ (scannedTree.findings 0).flatMap Finding.sources,
      Expr.isCallFreeSource source = true := by decide +kernel
  obtain ⟨bindings, after, binds, -, scans, -⟩ := bind_follows_scan reachable bears (by decide +kernel)
    (World.harmless_of_isCallFree free scannedPage)
  obtain ⟨charges, added, serve, -, -⟩ := scans.charges
  refine ⟨bindings, after, binds, ?_, scans.listeners, scans.others 9 (by decide) (by decide +kernel)⟩
  have three : charges.length = 3 := by
    rw [← List.length_map, serve]
    decide +kernel
  rw [added, List.nil_append, List.length_map, three]

end LiveMarkup
