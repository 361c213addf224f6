import LiveMarkup.Proofs.Establishing

/-
This file says what becomes of a display whose nodes move from their fragment into a container.
-/

namespace LiveMarkup

namespace Forest

variable {forest : Forest Handler} {parent child former other : Nat}

theorem exists_shape? (below : other < forest.size) : ∃ shape, forest.shape? other = some shape := by
  unfold shape? node?
  rw [Array.getElem?_eq_getElem (by exact below)]
  exact ⟨_, rfl⟩

/-- A node that moves changes its parent. -/
theorem shape?_attach_moved (apart : child ≠ parent) (aside : child ≠ former)
    (found : forest.parent? child = some former) :
    (forest.attach parent child).shape? child =
      (forest.shape? child).map fun shape => { shape with parent := some parent } := by
  unfold attach detach
  dsimp only
  rw [found]
  dsimp only
  rw [setChildren, shape?_modify_of_ne (Ne.symm apart), shape?_setParent_self, shape?_setParent_self,
    setChildren, shape?_modify_of_ne (Ne.symm aside), Option.map_map]
  rfl

/-- A node that moves becomes the last child. -/
theorem children_attach_self (known : parent < forest.size) (free : forest.parent? child ≠ some parent) :
    (forest.attach parent child).children parent = forest.children parent ++ [child] := by
  have size : ((forest.detach child).setParent child (some parent)).size = forest.size := by simp
  obtain ⟨shape, found⟩ := exists_shape? (Nat.lt_of_lt_of_eq known size.symm)
  unfold attach
  dsimp only
  rw [children_eq_shape?, shape?_setChildren_self, found, children_setParent, children_detach free]
  rfl

/-- Nodes move from a fragment into a container. -/
structure Moves (container fragment : Nat) (ids : List Nat) (before after : Forest Handler) : Prop where
  shapes : ∀ id ∈ ids, after.shape? id =
    (before.shape? id).map fun shape => { shape with parent := some container }
  others : ∀ other : Nat, other ∉ ids → other ≠ container → other ≠ fragment →
    after.shape? other = before.shape? other
  children : after.children container = before.children container ++ ids

theorem moves_attachAll {container fragment : Nat} (different : fragment ≠ container) (ids : List Nat)
    (forest : Forest Handler) (known : container < forest.size) (distinct : ids.Nodup)
    (apart : container ∉ ids) (aside : fragment ∉ ids)
    (parents : ∀ id ∈ ids, forest.parent? id = some fragment) :
    Moves container fragment ids forest
      (ids.foldl (fun current child => current.attach container child) forest) := by
  induction ids generalizing forest with
  | nil =>
      exact ⟨fun _ impossible => by (cases impossible), fun _ _ _ _ => rfl, (List.append_nil _).symm⟩
  | cons first rest inductionHypothesis =>
      obtain ⟨absent, distinctRest⟩ := List.nodup_cons.mp distinct
      have here := parents first List.mem_cons_self
      have apartFirst : first ≠ container := fun same => apart (same ▸ List.mem_cons_self)
      have asideFirst : first ≠ fragment := fun same => aside (same ▸ List.mem_cons_self)
      have free : forest.parent? first ≠ some container := fun found =>
        different (Option.some.inj (here.symm.trans found))
      have moves := inductionHypothesis (forest.attach container first)
        (by rwa [size_attach]) distinctRest (fun member => apart (List.mem_cons_of_mem _ member))
        (fun member => aside (List.mem_cons_of_mem _ member)) (by
          intro id member
          have other : first ≠ id := fun same => absent (same ▸ member)
          rw [parent?_attach_of_ne other]
          exact parents id (List.mem_cons_of_mem _ member))
      constructor
      · intro id member
        by_cases same : id = first
        · subst same
          rw [List.foldl_cons, moves.others id absent apartFirst asideFirst]
          exact shape?_attach_moved apartFirst asideFirst here
        · have later := (List.mem_cons.mp member).resolve_left same
          have away : container ≠ id := fun equal => apart (equal ▸ List.mem_cons_of_mem _ later)
          have loose : forest.parent? first ≠ some id := fun found =>
            aside (Option.some.inj (here.symm.trans found) ▸ List.mem_cons_of_mem _ later)
          rw [List.foldl_cons, moves.shapes id later, shape?_attach (Ne.symm same) away loose]
      · intro other outside notContainer notFragment
        obtain ⟨notFirst, notRest⟩ := not_or.mp (mt List.mem_cons.mpr outside)
        have loose : forest.parent? first ≠ some other := fun found =>
          notFragment (Option.some.inj (here.symm.trans found)).symm
        rw [List.foldl_cons, moves.others other notRest notContainer notFragment,
          shape?_attach (Ne.symm notFirst) (Ne.symm notContainer) loose]
      · rw [List.foldl_cons, moves.children, children_attach_self known free, List.append_assoc]
        rfl

/-- A container is emptied and takes the nodes of a newer fragment. -/
theorem moves_replace {container fragment : Nat} {ids : List Nat} (older : container < fragment)
    (found : forest.shape? fragment = some { content := .fragment, children := ids })
    (near : ∀ id ∈ forest.children container, id < fragment) (distinct : ids.Nodup)
    (late : ∀ id ∈ ids, fragment < id) (parents : ∀ id ∈ ids, forest.parent? id = some fragment) :
    (∀ id ∈ ids, ((forest.clear container).append container fragment).shape? id =
        (forest.shape? id).map fun shape => { shape with parent := some container }) ∧
      (∀ other : Nat, fragment < other → other ∉ ids →
        ((forest.clear container).append container fragment).shape? other = forest.shape? other) ∧
      ((forest.clear container).append container fragment).children container = ids := by
  have kept : ∀ id : Nat, fragment ≤ id → (forest.clear container).shape? id = forest.shape? id := by
    intro id later
    refine shape?_clear (Nat.ne_of_lt (Nat.lt_of_lt_of_le older later)) fun member => ?_
    exact absurd (near id member) (Nat.not_lt.mpr later)
  have still := (kept fragment (Nat.le_refl _)).trans found
  obtain ⟨content, known, plainly⟩ := content?_of_shape? still
  have isFragment : (forest.clear container).isFragment fragment = true := by
    unfold isFragment
    cases content <;> cases plainly
    rw [known]
    rfl
  have appended : (forest.clear container).append container fragment =
      ids.foldl (fun current child => current.attach container child) (forest.clear container) := by
    unfold append
    rw [if_pos isFragment, children_of_shape? still]
  have moves := moves_attachAll (Nat.ne_of_gt older) ids (forest.clear container)
    (by rw [size_clear]; exact Nat.lt_trans older (lt_size_of_shape? found)) distinct
    (fun member => Nat.lt_asymm older (late container member))
    (fun member => absurd (late fragment member) (Nat.lt_irrefl _)) (by
      intro id member
      rw [parent?_eq_shape?, kept id (Nat.le_of_lt (late id member)), ← parent?_eq_shape?]
      exact parents id member)
  rw [← appended] at moves
  refine ⟨fun id member => ?_, fun other later outside => ?_, ?_⟩
  · rw [moves.shapes id member, kept id (Nat.le_of_lt (late id member))]
  · rw [moves.others other outside (Nat.ne_of_gt (Nat.lt_trans older later)) (Nat.ne_of_gt later),
      kept other (Nat.le_of_lt later)]
  · rw [moves.children, children_clear, List.nil_append]

end Forest

namespace Markup

theorem nodup_places (start : Nat) (trees : List Markup) : (places start trees).Nodup := by
  induction trees generalizing start with
  | nil => exact List.nodup_nil
  | cons first rest inductionHypothesis =>
      refine List.nodup_cons.mpr ⟨fun member => ?_, inductionHypothesis _⟩
      have bounds := bounds_of_mem_places _ rest start member
      have positive := count_pos first
      omega

/-- The parent of markup matters to its first node only. -/
theorem mem_spots_moved (first second id : Nat) (tree : Markup) (site : Site)
    (member : .bound site ∈ tree.spots first id) :
    ∃ parent, .bound { site with parent } ∈ tree.spots second id := by
  cases tree with
  | text content =>
      unfold spots at member ⊢
      split at member
      · rename_i span
        cases List.mem_singleton.mp member
        rw [if_pos span]
        exact ⟨second, List.mem_singleton_self _⟩
      · cases List.mem_singleton.mp member
  | comment content => cases List.mem_singleton.mp member
  | element tag attributes children =>
      unfold spots at member ⊢
      split at member
      · cases List.mem_singleton.mp member
        exact ⟨second, List.mem_singleton_self _⟩
      · rcases List.mem_cons.mp member with impossible | below
        · cases impossible
        · exact ⟨site.parent, List.mem_cons_of_mem _ below⟩

theorem mem_spotsAll_moved (first second id : Nat) (trees : List Markup) (site : Site)
    (member : .bound site ∈ spotsAll first id trees) :
    ∃ parent, .bound { site with parent } ∈ spotsAll second id trees := by
  induction trees generalizing id with
  | nil => cases member
  | cons tree rest inductionHypothesis =>
      rcases List.mem_append.mp member with here | later
      · obtain ⟨parent, moved⟩ := mem_spots_moved first second id tree site here
        exact ⟨parent, List.mem_append_left _ moved⟩
      · obtain ⟨parent, moved⟩ := inductionHypothesis _ later
        exact ⟨parent, List.mem_append_right _ moved⟩

end Markup

namespace Forest

variable {before after : Forest Handler} {limit fragment container : Nat} {seen : Site → String}

theorem parent?_of_spots {forest : Forest Handler} (fragment id : Nat) (tree : Markup)
    (shows : ∀ spot ∈ tree.spots fragment id, forest.Shows limit seen spot) :
    forest.parent? id = some fragment := by
  cases tree with
  | text content =>
      unfold Markup.spots at shows
      split at shows <;> exact parent?_of_shape? (shows _ (List.mem_singleton_self _))
  | comment content => exact parent?_of_shape? (shows _ (List.mem_singleton_self _))
  | element tag attributes children =>
      unfold Markup.spots at shows
      split at shows
      · obtain ⟨_, -, found⟩ := shows _ (List.mem_singleton_self _)
        exact parent?_of_shape? found
      · exact parent?_of_shape? (shows _ List.mem_cons_self)

theorem parent?_of_mem_places {forest : Forest Handler} (fragment id : Nat) (trees : List Markup)
    (shows : ∀ spot ∈ Markup.spotsAll fragment id trees, forest.Shows limit seen spot) :
    ∀ place ∈ Markup.places id trees, forest.parent? place = some fragment := by
  induction trees generalizing id with
  | nil => exact fun _ impossible => by cases impossible
  | cons tree rest inductionHypothesis =>
      intro place member
      rcases List.mem_cons.mp member with rfl | later
      · exact parent?_of_spots fragment _ tree fun spot listed => shows spot (List.mem_append_left _ listed)
      · exact inductionHypothesis _ (fun spot listed => shows spot (List.mem_append_right _ listed)) place later

/-- A tree shows the same below another parent. -/
theorem shows_moved (same : ∀ site : Site, ∀ parent, seen { site with parent } = seen site) (id : Nat)
    (tree : Markup) (fits : id + tree.count ≤ limit)
    (moved : after.shape? id = (before.shape? id).map fun shape => { shape with parent := some container })
    (others : ∀ other : Nat, id < other → (other < id + tree.count ∨ limit ≤ other) →
      after.shape? other = before.shape? other)
    (shows : ∀ spot ∈ tree.spots fragment id, before.Shows limit seen spot) :
    ∀ spot ∈ tree.spots container id, after.Shows limit seen spot := by
  cases tree with
  | text content =>
      unfold Markup.spots at shows ⊢
      split at shows
      · rename_i span
        rw [if_pos span]
        intro spot member
        have found : before.shape? id = _ := shows _ (List.mem_singleton_self _)
        cases List.mem_singleton.mp member
        show after.shape? id = _
        rw [moved, found, same ⟨id, fragment, _⟩ container]
        rfl
      · rename_i span
        rw [if_neg span]
        intro spot member
        have found : before.shape? id = _ := shows _ (List.mem_singleton_self _)
        cases List.mem_singleton.mp member
        show after.shape? id = _
        rw [moved, found]
        rfl
  | comment content =>
      intro spot member
      have found : before.shape? id = _ := shows _ (List.mem_singleton_self _)
      cases List.mem_singleton.mp member
      show after.shape? id = _
      rw [moved, found]
      rfl
  | element tag attributes children =>
      unfold Markup.spots at shows ⊢
      cases source : Markup.textSource? attributes with
      | some text =>
          rw [source] at shows
          intro spot member
          obtain ⟨inner, holds, found⟩ := shows _ (List.mem_singleton_self _)
          cases List.mem_singleton.mp member
          refine ⟨inner, ?_, ?_⟩
          · rw [same ⟨id, fragment, _⟩ container]
            rcases holds with none | ⟨child, present, older, late, single, here⟩
            · exact Or.inl none
            · exact Or.inr ⟨child, present, older, late, single,
                (others child older (Or.inr late)).trans here⟩
          · have found' : before.shape? id = _ := found
            show after.shape? id = _
            rw [moved, found']
            rfl
      | none =>
          rw [source] at shows
          intro spot member
          rcases List.mem_cons.mp member with rfl | below
          · have found : before.shape? id = _ := shows _ List.mem_cons_self
            show after.shape? id = _
            rw [moved, found]
            rfl
          · have bounds := Markup.bounds_of_mem_spotsAll id (id + 1) children spot below
            unfold Markup.count at fits others
            refine shows_of_shapes (others spot.node (by omega) (Or.inl (by omega))) ?_
              (shows spot (List.mem_cons_of_mem _ below))
            exact fun child _ older late => others child (by omega) (Or.inr late)

theorem showsAll_moved (same : ∀ site : Site, ∀ parent, seen { site with parent } = seen site) (id : Nat)
    (trees : List Markup) (fits : id + Markup.countAll trees ≤ limit)
    (moved : ∀ place ∈ Markup.places id trees, after.shape? place =
      (before.shape? place).map fun shape => { shape with parent := some container })
    (others : ∀ other : Nat, id ≤ other → other ∉ Markup.places id trees →
      (other < id + Markup.countAll trees ∨ limit ≤ other) → after.shape? other = before.shape? other)
    (shows : ∀ spot ∈ Markup.spotsAll fragment id trees, before.Shows limit seen spot) :
    ∀ spot ∈ Markup.spotsAll container id trees, after.Shows limit seen spot := by
  induction trees generalizing id with
  | nil => exact fun _ impossible => by cases impossible
  | cons tree rest inductionHypothesis =>
      unfold Markup.countAll at fits others
      have positive := Markup.count_pos tree
      have bounds := fun place => Markup.bounds_of_mem_places (id + tree.count) rest place
      intro spot member
      rcases List.mem_append.mp member with here | later
      · refine shows_moved same id tree (by omega) (moved id List.mem_cons_self) ?_
          (fun spot listed => shows spot (List.mem_append_left _ listed)) spot here
        intro other above place
        refine others other (by omega) (fun listed => ?_) (by omega)
        rcases List.mem_cons.mp listed with equal | listed
        · omega
        · have := bounds other listed
          omega
      · refine inductionHypothesis (id + tree.count) (by omega)
          (fun place listed => moved place (List.mem_cons_of_mem _ listed)) ?_
          (fun spot listed => shows spot (List.mem_append_right _ listed)) spot later
        intro other above outside place
        refine others other (by omega) (fun listed => ?_) (by omega)
        rcases List.mem_cons.mp listed with equal | listed
        · omega
        · exact outside listed

end Forest

namespace Display

variable {display : Display} {state : TargetId} {container fragment : Nat} {trees : List Markup}
  {store : Store} {effects : List EffectId} {world after : World}

/-- A display that has just been opened below a fragment moves into a container. -/
theorem Opens.moved (opens : display.Opens state fragment trees store effects world)
    (start : display.start = fragment + 1) (older : container < fragment)
    (found : world.forest.shape? fragment =
      some { content := .fragment, children := Markup.places (fragment + 1) trees })
    (near : ∀ id ∈ world.forest.children container, id < fragment)
    (graph : after.graph = world.graph) (targets : after.targets = world.targets)
    (forest : after.forest = (world.forest.clear container).append container fragment) :
    ∃ moved : Display, moved.Opens state container trees store effects after := by
  obtain ⟨rfl, rfl, rfl⟩ : display.state = state ∧ display.root = fragment ∧ display.trees = trees :=
    ⟨opens.state, opens.root, opens.trees⟩
  let moved : Display := { display with root := container, deeds := after.deeds }
  have stores : ∀ id, after.store? id = world.store? id := by
    intro id
    unfold World.store?
    rw [targets]
  have seen : ∀ spot ∈ Markup.spotsAll display.root display.start display.trees,
      world.forest.Shows display.limit (fun site => (site.seen store).2) spot := by
    obtain ⟨shown, shows⟩ := opens.stands.shows
    intro spot member
    cases spot with
    | fixed id shape => exact shows _ member
    | bound site =>
        obtain ⟨other, known, here, -⟩ := (opens.fresh site member).seen
        cases known.symm.trans opens.found
        exact here
  have parents := Forest.parent?_of_mem_places display.root display.start display.trees seen
  rw [start] at parents
  obtain ⟨shapes, others, children⟩ := Forest.moves_replace older found near
    (Markup.nodup_places _ _) (fun id member => (Markup.bounds_of_mem_places _ _ id member).1) parents
  rw [← forest] at shapes others children
  have shows : ∀ spot ∈ moved.spots,
      after.forest.Shows moved.limit (fun site => (site.seen store).2) spot := by
    refine Forest.showsAll_moved (fun _ _ => rfl) display.start display.trees (Nat.le_refl _) ?_ ?_ seen
    · rw [start]
      exact shapes
    · rw [start]
      exact fun other above outside _ => others other above outside
  have back : ∀ site, moved.HasSite site → ∃ parent, display.HasSite { site with parent } :=
    fun site member => Markup.mem_spotsAll_moved container display.root _ _ site member
  have forth : ∀ site, display.HasSite site → ∃ parent, moved.HasSite { site with parent } :=
    fun site member => Markup.mem_spotsAll_moved display.root container _ _ site member
  have owns : ∀ id, moved.Owns id ↔ display.Owns id := by
    intro id
    constructor
    · rintro (⟨site, member, same⟩ | member)
      · obtain ⟨parent, here⟩ := back site member
        exact Or.inl ⟨_, here, same⟩
      · exact Or.inr member
    · rintro (⟨site, member, same⟩ | member)
      · obtain ⟨parent, here⟩ := forth site member
        exact Or.inl ⟨_, here, same⟩
      · exact Or.inr member
  refine ⟨moved, rfl, rfl, opens.kids, rfl, rfl, opens.methods, (stores _).trans opens.found,
    fun id => (owns id).trans (opens.owns id), ?_, ?_, ?_⟩
  · refine ⟨?_, opens.formed.near, fun site member => ?_⟩
    · show container < display.start
      omega
    · obtain ⟨parent, here⟩ := back site member
      have free := opens.formed.free { site with parent } here
      exact free
  · refine
      { reachable := ?_, deeds := List.suffix_refl _, store := ?_, methods := ?_, tasks := ?_,
        inputs := ?_, idle := ?_, size := ?_, children := ?_, shows := ⟨_, shows⟩ }
    · obtain ⟨moves, path⟩ := opens.stands.reachable
      exact ⟨moves, graph ▸ path⟩
    · rw [stores]
      exact opens.stands.store
    · intro other name known listed
      exact opens.stands.methods other name ((stores _).symm.trans known) listed
    · intro site member
      obtain ⟨parent, here⟩ := back site member
      have task := opens.stands.tasks _ here
      unfold World.HasTask at task ⊢
      rwa [graph]
    · intro id member
      have input := opens.stands.inputs id member
      unfold World.HasInput World.HasTask at input ⊢
      rwa [graph]
    · intro id owned
      rw [graph]
      exact opens.stands.idle id ((owns id).mp owned)
    · rw [forest, Forest.size_append, Forest.size_clear]
      exact opens.stands.size
    · show after.forest.children container = display.kids
      rw [children, opens.kids, start]
  · intro site member
    obtain ⟨parent, here⟩ := back site member
    obtain ⟨other, known, -, depends⟩ := (opens.fresh _ here).seen
    cases known.symm.trans opens.found
    refine ⟨store, (stores _).trans opens.found, shows _ member, fun name listed => ?_⟩
    have old := depends name listed
    unfold World.Depends at old ⊢
    rwa [graph]

end Display

end LiveMarkup
