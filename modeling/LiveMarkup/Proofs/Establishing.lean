import LiveMarkup.Proofs.Binding

/-
This file shows that binding a tree that was just planted opens a display: all its sites are up to date,
and its effects are those of the binding.
-/

namespace LiveMarkup

open Live

namespace Forest

/-- Markup is as a template makes it: below a fragment, and numbered in document order. -/
structure Planted (forest : Forest Handler) (root : Nat) (trees : List Markup) : Prop where
  fragment : forest.shape? root =
    some { content := .fragment, children := Markup.places (root + 1) trees }
  has : forest.Has (Markup.plantedAll root (root + 1) trees)
  size : root + 1 + Markup.countAll trees ≤ forest.size

theorem planted_plantFragment (forest : Forest Handler) (trees : List Markup) :
    (forest.plantFragment trees).2.Planted forest.size trees := by
  obtain ⟨size, fragment, has⟩ := planting_plantFragment forest trees
  exact ⟨fragment, has, Nat.le_of_eq size.symm⟩

end Forest

namespace World

variable (depth : Nat) {state : TargetId} {store : Store} {guard : Hold} {root : Nat}
  {trees : List Markup} {world : World}

/-- Binding a planted tree returns, and all its spots show what the store says. -/
theorem binds_planted (legal : Markup.EverywhereAll Markup.Legal trees)
    (free : Markup.EverywhereAll Markup.CallFree trees) (offers : world.Offers state store guard)
    (planted : world.forest.Planted root trees) :
    ∃ bound after, bind (runTo (depth + 1)) root state world = .ok bound after ∧
      world.Binds state store (root + 1 + Markup.countAll trees) (root + 1)
        (root + 1 + Markup.countAll trees)
        (Markup.yieldAll root (root + 1) trees) {} bound after ∧
      ∀ spot ∈ Markup.spotsAll root (root + 1) trees,
        after.forest.Shows (root + 1 + Markup.countAll trees) (fun site => (site.seen store).2) spot := by
  obtain ⟨known, looked, plainly⟩ := Forest.content?_of_shape? planted.fragment
  cases known <;> cases plainly
  have here : bindNode (runTo (depth + 1)) state root {} world = .ok ({}, false) world := by
    unfold bindNode
    rw [get_bind, looked]
    rfl
  have children := Forest.children_of_shape? planted.fragment
  have size := planted.size
  obtain ⟨steps, enough⟩ : ∃ steps, world.forest.size + patience = steps + 1 :=
    ⟨world.forest.size + patience - 1, by omega⟩
  obtain ⟨rest, bound, after, -, walks, binds, shows⟩ := walks_trees depth trees root (root + 1) steps {}
    world [] legal free offers ⟨planted.has, Or.inl rfl, size⟩ children
    (fun _ impossible => by cases impossible) (Nat.lt_succ_self root) (Nat.lt_succ_self root)
    (Nat.le_refl _) (by omega)
  have ends : bindFrom (runTo (depth + 1)) state root rest (after.forest.nextSkipping? root root) bound
      after = .ok bound after := by
    rw [Forest.nextSkipping?_root]
    cases rest <;> rfl
  have walked : bindFrom (runTo (depth + 1)) state root (world.forest.size + patience) (some root) {}
      world = .ok bound after := by
    rw [enough, bindFrom_succ steps here, if_neg (by simp), Forest.next?_eq_onward, children, walks, ends]
  let notice : Notice := .bound bound.effects.length bound.listeners
  refine ⟨bound, after.note notice, ?_, ?_, shows⟩
  · unfold Live.bind
    rw [get_bind, bind_of_ok walked]
    rfl
  · have unwired : after.Wired state store [] (after.note notice) :=
      .quietly rfl rfl rfl rfl
        (fun _ _ => (List.append_nil _).symm) (fun _ _ => rfl) (fun _ => rfl)
        fun _ impossible => by cases impossible
    have noted := binds.trans (.quietly (fun _ => False) (.note after notice) (fun _ _ _ => rfl)
      (fun _ impossible => impossible.elim) (Nat.le_refl _) rfl (Nat.add_zero _).symm rfl unwired)
      (offers.later binds.gentle)
    rw [show (⟨[], [], 0, []⟩ : Yield) = .none from rfl, Yield.add_none] at noted
    exact noted

end World

namespace Charge

/-- The effect that serves the site at a node. -/
def effectFor (charges : List Charge) (node : Nat) : EffectId :=
  ((charges.find? fun charge => charge.site.any fun site => site.node = node).map effect).getD 0

/-- These effects serve inputs. -/
def inputs (charges : List Charge) : List EffectId :=
  (charges.filter fun charge => charge.site.isNone).map effect

theorem effectFor_eq {charges : List Charge}
    (ordered : (charges.filterMap Charge.site).Pairwise fun first second => first.node < second.node)
    {charge : Charge} (member : charge ∈ charges) {site : Site} (serves : charge.site = some site) :
    effectFor charges site.node = charge.effect := by
  unfold effectFor
  induction charges with
  | nil => cases member
  | cons first rest inductionHypothesis =>
      cases other : first.site with
      | none =>
          rw [List.filterMap_cons, other] at ordered
          rw [List.find?_cons_of_neg (by simp [other])]
          refine inductionHypothesis ordered ((List.mem_cons.mp member).resolve_left ?_)
          rintro rfl
          cases serves.symm.trans other
      | some earlier =>
          rw [List.filterMap_cons, other] at ordered
          obtain ⟨before, later⟩ := List.pairwise_cons.mp ordered
          rcases List.mem_cons.mp member with rfl | listed
          · rw [List.find?_cons_of_pos (by simp [serves])]
            rfl
          · have less := before site (List.mem_filterMap.mpr ⟨charge, listed, serves⟩)
            rw [List.find?_cons_of_neg (by simp [other, Nat.ne_of_lt less])]
            exact inductionHypothesis later listed

end Charge

namespace Markup

mutual

/-- Sites come from expressions of the markup. -/
theorem isCallFree_of_mem_spots (parent id : Nat) :
    ∀ tree : Markup, tree.Everywhere CallFree → ∀ site : Site, .bound site ∈ tree.spots parent id →
      site.isCallFree = true
  | .text content, free, site, member => by
      unfold spots at member
      split at member
      · cases List.mem_singleton.mp member
        exact free
      · cases List.mem_singleton.mp member
  | .comment content, free, site, member => by cases List.mem_singleton.mp member
  | .element tag attributes children, free, site, member => by
      unfold spots at member
      split at member
      · rename_i source found
        cases List.mem_singleton.mp member
        obtain ⟨entry, listed, rfl⟩ := Option.map_eq_some_iff.mp found
        have text := List.find?_some listed
        have callFree := free.1 entry (List.mem_of_find?_eq_some listed)
        unfold isCallFreeAttribute at callFree
        rwa [of_decide_eq_true text] at callFree
      · rcases List.mem_cons.mp member with impossible | below
        · cases impossible
        · exact isCallFree_of_mem_spotsAll id (id + 1) children free.2 site below

theorem isCallFree_of_mem_spotsAll (parent id : Nat) :
    ∀ trees : List Markup, EverywhereAll CallFree trees → ∀ site : Site,
      .bound site ∈ spotsAll parent id trees → site.isCallFree = true
  | [], _, site, member => by cases member
  | first :: rest, free, site, member => by
      rcases List.mem_append.mp member with here | later
      · exact isCallFree_of_mem_spots parent id first free.1 site here
      · exact isCallFree_of_mem_spotsAll parent (id + first.count) rest free.2 site later

end

end Markup

/-- The template tells the labels of the effects that a binding made, and the number of its listeners. -/
structure Bindings.Match (bindings : Bindings) (trees : List Markup) (world : World) : Prop where
  labels : bindings.effects.map world.labelOf? = (Markup.labelsAll trees).map some
  listeners : bindings.listeners = Markup.listenersAll trees

theorem Bindings.Match.later {bindings : Bindings} {trees : List Markup} {before after : World}
    (matching : bindings.Match trees before) (later : before.Later after) :
    bindings.Match trees after where
  labels := by
    rw [← matching.labels]
    apply List.map_congr_left
    intro id listed
    have told : before.labelOf? id ∈ (Markup.labelsAll trees).map some :=
      matching.labels ▸ List.mem_map_of_mem listed
    obtain ⟨label, -, labelled⟩ := List.mem_map.mp told
    rw [← labelled]
    exact later.labelOf? labelled.symm
  listeners := matching.listeners

namespace Display

/-- A binding has just opened a display. Nothing has been done since. -/
structure Opens (display : Display) (state : TargetId) (root : Nat) (trees : List Markup)
    (store : Store) (effects : List EffectId) (world : World) : Prop where
  state : display.state = state
  root : display.root = root
  kids : display.kids = Markup.places display.start display.trees
  trees : display.trees = trees
  deeds : display.deeds = world.deeds
  methods : display.methods = store.methods.contains
  found : world.store? display.state = some store
  owns : ∀ id, display.Owns id ↔ id ∈ effects
  formed : display.Formed
  stands : display.Stands world
  fresh : ∀ site, display.HasSite site → display.Fresh world site

/-- A binding opens a display. It makes new effects, and leaves older nodes alone. -/
theorem opens_bind (depth : Nat) {state : TargetId} {store : Store} {guard : Hold} {root : Nat}
    {trees : List Markup} {world : World} (legal : Markup.EverywhereAll Markup.Legal trees)
    (free : Markup.EverywhereAll Markup.CallFree trees) (offers : world.Offers state store guard)
    (planted : world.forest.Planted root trees) :
    ∃ bound after, Live.bind (runTo (depth + 1)) root state world = .ok bound after ∧
      world.Gentle state after ∧
      (∃ display : Display, display.Opens state root trees store bound.effects after ∧
        display.start = root + 1) ∧
      (∀ id ∈ bound.effects, after.Endures id ∧ world.graph.effects.size ≤ id) ∧
      (∀ id shape, id ≤ root → world.forest.shape? id = some shape →
        after.forest.shape? id = some shape) ∧
      bound.Match trees after ∧
      ∀ id, world.graph.effects.size ≤ id → id < after.graph.effects.size → id ∈ bound.effects := by
  obtain ⟨bound, after, returns, binds, shows⟩ := World.binds_planted depth legal free offers planted
  obtain ⟨charges, added, serves, labelled, fulfils⟩ := binds.charges
  dsimp only [Markup.yieldAll] at serves labelled
  have offered := offers.later binds.gentle
  have ordered : (charges.filterMap Charge.site).Pairwise fun first second => first.node < second.node := by
    rw [serves, List.pairwise_filterMap]
    refine (Markup.pairwise_spotsAll root (root + 1) trees).imp ?_
    intro first second less one found other looked
    cases first <;> cases found
    cases second <;> cases looked
    exact less
  let display : Display :=
    { state, root, start := root + 1, kids := Markup.places (root + 1) trees, trees, effectAt := Charge.effectFor charges,
      inputs := Charge.inputs charges, deeds := after.deeds, methods := store.methods.contains }
  have served : ∀ site, display.HasSite site → ∃ charge ∈ charges, charge.site = some site := by
    intro site member
    have listed : site ∈ (Markup.spotsAll root (root + 1) trees).filterMap Spot.site? :=
      List.mem_filterMap.mpr ⟨_, member, rfl⟩
    rw [← serves] at listed
    exact List.mem_filterMap.mp listed
  have sited : ∀ charge ∈ charges, ∀ site, charge.site = some site →
      display.HasSite site ∧ display.effectAt site.node = charge.effect := by
    intro charge member site found
    have listed : site ∈ charges.filterMap Charge.site := List.mem_filterMap.mpr ⟨charge, member, found⟩
    rw [serves] at listed
    obtain ⟨spot, inside, same⟩ := List.mem_filterMap.mp listed
    cases spot <;> cases same
    exact ⟨inside, Charge.effectFor_eq ordered member found⟩
  have inputs : ∀ id, id ∈ display.inputs ↔ ∃ charge ∈ charges, charge.site = none ∧ charge.effect = id := by
    intro id
    show id ∈ Charge.inputs charges ↔ _
    unfold Charge.inputs
    simp only [List.mem_map, List.mem_filter, Option.isNone_iff_eq_none, and_assoc]
  have owns : ∀ id, display.Owns id ↔ id ∈ bound.effects := by
    intro id
    rw [added]
    show _ ↔ id ∈ [] ++ charges.map Charge.effect
    rw [List.nil_append, List.mem_map]
    constructor
    · rintro (⟨site, member, same⟩ | member)
      · obtain ⟨charge, listed, found⟩ := served site member
        exact ⟨charge, listed, (sited charge listed site found).2.symm.trans same⟩
      · obtain ⟨charge, listed, -, same⟩ := (inputs id).mp member
        exact ⟨charge, listed, same⟩
    · rintro ⟨charge, listed, same⟩
      cases found : charge.site with
      | none => exact Or.inr ((inputs id).mpr ⟨charge, listed, found, same⟩)
      | some site =>
          obtain ⟨member, effect⟩ := sited charge listed site found
          exact Or.inl ⟨site, member, effect.trans same⟩
  have fulfilled : ∀ id, display.Owns id → after.Endures id ∧ world.graph.effects.size ≤ id := by
    intro id owned
    have member := (owns id).mp owned
    rw [added] at member
    obtain ⟨charge, listed, rfl⟩ := List.mem_map.mp ((List.mem_append.mp member).resolve_left
      (fun impossible => by cases impossible))
    obtain ⟨fulfil, recent⟩ := fulfils charge listed
    exact ⟨fulfil.endures, recent⟩
  refine ⟨bound, after, returns, binds.gentle, ⟨display,
    { state := rfl, root := rfl, kids := rfl, trees := rfl, deeds := rfl, methods := rfl, found := offered.found, owns,
      formed := ?_, stands := ?_, fresh := ?_ }, rfl⟩,
    fun id member => fulfilled id ((owns id).mpr member), fun id shape older found =>
      binds.shape found (by omega) (Or.inl (Nat.lt_succ_of_le older)),
    ⟨?_, binds.listeners.trans (Nat.zero_add _)⟩, binds.known⟩
  · exact ⟨Nat.lt_succ_self root, fun child member => (Markup.bounds_of_mem_places _ trees child member).2,
      Markup.isCallFree_of_mem_spotsAll root (root + 1) trees free⟩
  · refine
      { reachable := offered.reachable, deeds := List.suffix_refl _, store := ?_, methods := ?_,
        tasks := ?_, inputs := ?_, idle := ?_, size := ?_, children := ?_, shows := ⟨_, shows⟩ }
    · rw [offered.found]
      rfl
    · intro other name found listed
      cases found.symm.trans offered.found
      exact listed
    · intro site member
      obtain ⟨charge, listed, found⟩ := served site member
      have task := (fulfils charge listed).1.task site found
      rwa [← (sited charge listed site found).2] at task
    · intro id member
      obtain ⟨charge, listed, none, rfl⟩ := (inputs id).mp member
      exact (fulfils charge listed).1.input none
    · intro id owned running
      rw [binds.gentle.later.stack] at running
      exact absurd (fulfilled id owned).2 (Nat.not_le_of_lt (offers.reachable.lt_of_mem_stack running))
    · exact Nat.le_trans planted.size binds.gentle.later.nodes
    · have root := binds.shape planted.fragment (by omega) (Or.inl (Nat.lt_succ_self root))
      exact Forest.children_of_shape? root
  · intro site member
    obtain ⟨charge, listed, found⟩ := served site member
    refine ⟨store, offered.found, shows _ member, fun name mentioned => ?_⟩
    have depends := (fulfils charge listed).1.depends site found name mentioned
    rwa [← (sited charge listed site found).2] at depends
  · have same : (Markup.labelsAll trees).map some = charges.map fun charge => some charge.label := by
      rw [← labelled, List.map_map]
      rfl
    rw [same, added]
    show (charges.map Charge.effect).map _ = _
    rw [List.map_map]
    exact List.map_congr_left fun charge listed => (fulfils charge listed).1.label

end Display

end LiveMarkup
