import LiveMarkup.Proofs.Attentive
import LiveMarkup.Proofs.Forms
import LiveMarkup.Proofs.Homes
import LiveMarkup.Proofs.Rendering
import LiveMarkup.Proofs.Tenure

/-
This file follows a host that draws its template: what is bound anew takes the place of what was there, and nothing
else changes.
-/

namespace LiveMarkup

open Live

namespace Forest

variable {forest : Forest Handler} {parent child other : Nat}

/-- A node that is not moved keeps its parent. -/
theorem parent?_append_of_not_mem (stays : other ∉ forest.movedBy child) :
    (forest.append parent child).parent? other = forest.parent? other := by
  have folded : ∀ (ids : List NodeId) (current : Forest Handler), other ∉ ids →
      (ids.foldl (fun current grandchild => current.attach parent grandchild) current).parent? other =
        current.parent? other := by
    intro ids
    induction ids with
    | nil => exact fun _ _ => rfl
    | cons first rest inductionHypothesis =>
        intro current absent
        obtain ⟨apart, later⟩ := not_or.mp (mt List.mem_cons.mpr absent)
        rw [List.foldl_cons, inductionHypothesis _ later, parent?_attach_of_ne (Ne.symm apart)]
  unfold movedBy at stays
  unfold append
  split
  · rename_i fragment
    rw [if_pos fragment] at stays
    exact folded _ forest stays
  · rename_i fragment
    rw [if_neg fragment] at stays
    exact parent?_attach_of_ne (Ne.symm (mt List.mem_singleton.mpr stays))

/-- A new node without handlers hears nothing. -/
theorem handlersAt_create {content : Content Handler} (deaf : ∀ element, content.element? = some element →
    element.listeners = []) : (forest.create content).2.handlersAt other = forest.handlersAt other := by
  by_cases known : other < forest.size
  · exact handlersAt_of_content? (content?_create known)
  · rw [handlersAt_of_le_size (Nat.le_of_not_lt known)]
    by_cases new : other = forest.size
    · subst new
      have found := node?_create forest content
      unfold handlersAt element? content?
      rw [show forest.size = (forest.create content).1 from rfl, found]
      cases content with
      | element element => exact deaf element rfl
      | fragment | text | comment => rfl
    · refine handlersAt_of_le_size ?_
      rw [size_create]
      omega

theorem handlersAt_attach (forest : Forest Handler) (parent child : NodeId) :
    (forest.attach parent child).handlersAt other = forest.handlersAt other :=
  handlersAt_of_content? (content?_attach forest parent child)

mutual

/-- What is planted hears nothing. -/
theorem handlersAt_plant (forest : Forest Handler) (parent : NodeId) :
    ∀ tree : Markup, (forest.plant parent tree).handlersAt other = forest.handlersAt other
  | .text _ | .comment _ => (handlersAt_attach _ _ _).trans (handlersAt_create nofun)
  | .element tag attributes children => by
      refine (handlersAt_plantAll _ _ children).trans ((handlersAt_attach _ _ _).trans (handlersAt_create ?_))
      rintro element same
      cases same
      rfl

theorem handlersAt_plantAll (forest : Forest Handler) (parent : NodeId) :
    ∀ trees : List Markup, (forest.plantAll parent trees).handlersAt other = forest.handlersAt other
  | [] => rfl
  | first :: rest => (handlersAt_plantAll _ parent rest).trans (handlersAt_plant forest parent first)

end

theorem handlersAt_plantFragment (forest : Forest Handler) (trees : List Markup) :
    (forest.plantFragment trees).2.handlersAt other = forest.handlersAt other :=
  (handlersAt_plantAll _ _ trees).trans (handlersAt_create nofun)

variable {container fragment limit : Nat} {trees : List Markup} {seen : Site → String}

/-- Bound markup that moves from a fragment into a container shows there what it showed. -/
theorem replaces_content (older : container < fragment)
    (found : forest.shape? fragment =
      some { content := .fragment, children := Markup.places (fragment + 1) trees })
    (near : ∀ child ∈ forest.children container, child < fragment)
    (fits : fragment + 1 + Markup.countAll trees ≤ limit)
    (same : ∀ site : Site, ∀ parent, seen { site with parent } = seen site)
    (shows : ∀ spot ∈ Markup.spotsAll fragment (fragment + 1) trees, forest.Shows limit seen spot) :
    ((forest.clear container).append container fragment).children container = Markup.places (fragment + 1) trees ∧
      (∀ spot ∈ Markup.spotsAll container (fragment + 1) trees,
        ((forest.clear container).append container fragment).Shows limit seen spot) ∧
      ∀ node parent, node < fragment →
        ((forest.clear container).append container fragment).parent? node = some parent →
          forest.parent? node = some parent := by
  have late : ∀ id ∈ Markup.places (fragment + 1) trees, fragment < id := fun id member =>
    (Markup.bounds_of_mem_places _ _ id member).1
  obtain ⟨shapes, others, children⟩ := moves_replace older found near (Markup.nodup_places _ _) late
    (parent?_of_mem_places fragment (fragment + 1) trees shows)
  refine ⟨children, ?_, fun node parent below moved => ?_⟩
  · refine showsAll_moved same (fragment + 1) trees fits shapes ?_ shows
    exact fun other above outside _ => others other above outside
  · rw [parent?_append_of_not_mem] at moved
    · exact parent?_of_clear moved
    · have kept : (forest.clear container).shape? fragment = forest.shape? fragment :=
        shape?_clear (Nat.ne_of_lt older) fun member => absurd (near fragment member) (Nat.lt_irrefl _)
      intro member
      unfold movedBy at member
      split at member
      · rw [children_of_shape? (kept.trans found)] at member
        exact Nat.lt_asymm below (late node member)
      · exact absurd (List.mem_singleton.mp member) (Nat.ne_of_lt below)

end Forest

namespace World

/-- A host draws its template. The new content stands in its container and is wired to its state, and the effects of
the old content are disposed. Nothing else ends, and older nodes hear what they heard. -/
structure Draws (id : HostId) (record : Host) (trees : List Markup) (bindings : Bindings)
    (before after : World) : Prop where
  later : before.Later after
  homed : after.Homed
  host : after.host? id = some { record with bindings, renders := record.renders + 1 }
  store : after.store? record.state = before.store? record.state
  names : after.names = before.names
  deeds : ∃ newer, after.deeds = newer ++ before.deeds ∧ ∀ target, Deed.released target ∉ newer
  disposed : ∀ effect < before.graph.effects.size, after.graph.isDisposed effect = true ↔
    before.graph.isDisposed effect = true ∨ effect ∈ record.bindings.effects
  fresh : ∀ effect, effect ∈ bindings.effects ↔
    before.graph.effects.size ≤ effect ∧ effect < after.graph.effects.size
  children : after.forest.children record.container = Markup.places (before.forest.size + 1) trees
  shows : ∃ shown, ∀ spot ∈ Markup.spotsAll record.container (before.forest.size + 1) trees,
    after.forest.Shows (before.forest.size + 1 + Markup.countAll trees) shown spot
  hears : after.forest.Hears record.state (before.forest.size + 1)
    (before.forest.size + 1 + Markup.countAll trees) (Markup.wiresAll (before.forest.size + 1) trees)
  handlers : ∀ node < before.forest.size, after.forest.handlersAt node = before.forest.handlersAt node
  parents : ∀ node parent, node < before.forest.size → after.forest.parent? node = some parent →
    before.forest.parent? node = some parent
  size : before.forest.size + 1 + Markup.countAll trees ≤ after.forest.size

variable {world : World} {id : HostId} {record : Host} {store : Store} {trees : List Markup} {notices : List Notice}

/-- A world is ready for a new binding when a template is planted and the old bindings are gone. -/
structure Cleared (id : HostId) (record : Host) (trees : List Markup) (before ready : World) : Prop where
  later : before.Later ready
  homed : ready.Homed
  host : ready.host? id = some { record with bindings := {} }
  targets : ready.targets = before.targets
  names : ready.names = before.names
  deeds : ready.deeds = .parsed id record.component.template :: before.deeds
  forest : ready.forest = (before.forest.plantFragment trees).2
  effects : ready.graph.effects.size = before.graph.effects.size
  disposed : ∀ effect < before.graph.effects.size, ready.graph.isDisposed effect = true ↔
    before.graph.isDisposed effect = true ∨ effect ∈ record.bindings.effects

/-- Where nothing ends, a host only loses its bindings. -/
theorem host?_emptied (homed : world.Homed) (found : world.host? id = some record) :
    world.emptied id record =
        (world.modifyHost id fun host => { host with bindings := {} }).disposeBindings record.bindings ∧
      (world.emptied id record).Homed ∧ (world.emptied id record).host? id = some { record with bindings := {} } ∧
      (world.emptied id record).targets = world.targets := by
  let forgotten := world.modifyHost id fun host => { host with bindings := {} }
  obtain ⟨targets, hosts⟩ := objects_disposeBindings forgotten record.bindings
  have lives : forgotten.Homed := homed.modifyHost id fun _ => rfl
  have still : (forgotten.disposeBindings record.bindings).Homed :=
    lives.of_same hosts targets (congrArg Names.hosts (sweeps_disposeBindings forgotten record.bindings).names)
  have same : world.emptied id record = forgotten.disposeBindings record.bindings := still.collect_eq
  have changed := host?_modifyHost world id id fun host => { host with bindings := {} }
  rw [if_pos rfl, found] at changed
  rw [same]
  refine ⟨rfl, still, ?_, targets⟩
  unfold host? at changed ⊢
  rw [hosts]
  exact changed

theorem cleared_prepared (homed : world.Homed) (reachable : world.Reachable) (found : world.host? id = some record) :
    world.Cleared id record trees (world.prepared id record trees notices) := by
  let planted := { world with forest := (world.forest.plantFragment trees).2, notices }.attest
    (.parsed id record.component.template)
  let forgotten := planted.modifyHost id fun host => { host with bindings := {} }
  have sweeps := sweeps_disposeBindings forgotten record.bindings
  have lives : planted.Homed := homed.of_same rfl rfl rfl
  obtain ⟨same, still, host, targets⟩ := host?_emptied lives (show planted.host? id = some record from found)
  have later := later_prepared world id record trees notices
  unfold prepared at later ⊢
  rw [same] at still host targets later ⊢
  refine ⟨later, still, host, targets, sweeps.names, sweeps.deeds, sweeps.forest, sweeps.effects,
    fun effect known => ?_⟩
  by_cases listed : effect ∈ record.bindings.effects
  · exact iff_of_true (isDisposed_disposeBindings (show forgotten.Reachable from reachable) known listed) (Or.inr listed)
  · rw [graph_disposeBindings, isDisposed_foldl_disposeEffect _ _ listed]
    exact (or_iff_left listed).symm

/-- What is bound for a host and installed is drawn. -/
theorem Cleared.draws (depth : Nat) {ready : World} (cleared : world.Cleared id record trees ready)
    (offers : ready.Offers record.state store (.host id)) (legal : Markup.EverywhereAll Markup.Legal trees)
    (free : Markup.EverywhereAll Markup.CallFree trees)
    (known : record.container < world.forest.size)
    (near : ∀ child ∈ world.forest.children record.container, child < world.forest.size) :
    ∃ bindings bound, bind (runTo (depth + 1)) world.forest.size record.state ready = .ok bindings bound ∧
      ∀ notice, world.Draws id record trees bindings
        ((bound.installed id record bindings world.forest.size).note notice) := by
  let fragment := world.forest.size
  have planted : ready.forest.Planted fragment trees :=
    cleared.forest ▸ Forest.planted_plantFragment world.forest trees
  obtain ⟨bindings, bound, returns, binds, shows⟩ := binds_planted depth legal free offers planted
  have gentle := binds.gentle
  have wired : ready.Wired record.state store (Markup.wiresAll (fragment + 1) trees) bound := binds.wired
  have sustained := wired.sustains cleared.homed.settled
  have homed : bound.Homed := cleared.homed.of_homes (fun id => by unfold host?; rw [sustained.hosts]) sustained.states
    (congrArg Names.hosts gentle.names)
  have grown : fragment < ready.forest.size := by
    have size := planted.size
    omega
  have near : ∀ child ∈ bound.forest.children record.container, child < fragment := by
    obtain ⟨shape, shaped⟩ := Forest.exists_shape? known
    have kept : ready.forest.shape? record.container = some shape := by
      rw [cleared.forest, Forest.shape?_plantFragment trees known, shaped]
    have small : record.container < fragment + 1 := Nat.lt_succ_of_lt known
    rw [Forest.children_of_shape? (binds.shape kept (Nat.lt_of_lt_of_le small (Nat.le_add_right _ _)) (Or.inl small)),
      ← Forest.children_of_shape? shaped]
    exact near
  obtain ⟨children, shown, parents⟩ := Forest.replaces_content known
    (binds.shape planted.fragment (by omega) (Or.inl (Nat.lt_succ_self _))) near (Nat.le_refl _)
    (fun _ _ => rfl) shows
  have handlers : ∀ node < ready.forest.size,
      (bound.installed id record bindings fragment).forest.handlersAt node = world.forest.handlersAt node ++
        ((Markup.wiresAll (fragment + 1) trees).filter fun wire => wire.node = node).map
          (Wire.entry record.state) := by
    intro node below
    show ((bound.forest.clear record.container).append record.container fragment).handlersAt node = _
    rw [Forest.handlersAt_append, Forest.handlersAt_clear, wired.handlers node below, cleared.forest,
      Forest.handlersAt_plantFragment]
  refine ⟨bindings, bound, returns, fun notice =>
    { later := ?_, homed := ?_, host := ?_, store := ?_, names := gentle.names.trans cleared.names
      deeds := ?_, disposed := ?_, fresh := ?_, children, shows := ⟨_, shown⟩, hears := ?_, handlers := ?_, parents := ?_
      size := ?_ }⟩
  · have lasts := Runner.keeps_runTo Later.refl (fun depth _ => lawful_lasting depth) (depth + 1)
    have binding := (Lasting.primitive lasts).bind fragment record.state ready
    have installing : ready.Later (bound.installed id record bindings fragment) :=
      Lasting.installContent id record bindings fragment ready bound (binding.1.calm returns)
        (binding.2 bindings bound returns)
    exact (cleared.later.trans installing).trans (later_note _ notice)
  · have shown : ({ bound.attest (.rendered id bindings.effects (bound.forest.holders record.container ++
        bound.forest.appendHolders record.container fragment)) with
        forest := (bound.forest.clear record.container).append record.container fragment } : World).Homed :=
      homed.of_same rfl rfl rfl
    have installed : (bound.installed id record bindings fragment).Homed := shown.modifyHost id fun _ => rfl
    exact installed.of_same rfl rfl rfl
  · have looked : bound.host? id = some { record with bindings := {} } := by
      unfold host?
      rw [sustained.hosts]
      exact cleared.host
    have changed := host?_modifyHost bound id id fun host => { host with bindings, renders := host.renders + 1 }
    rw [if_pos rfl, looked] at changed
    exact changed
  · have alive := (gentle.guarded _ offers.guarded).alive
    refine (gentle.store alive).trans ?_
    unfold store?
    rw [cleared.targets]
  · obtain ⟨newer, since, showing⟩ := gentle.deeds
    refine ⟨.rendered id bindings.effects (bound.forest.holders record.container ++
      bound.forest.appendHolders record.container fragment) :: (newer ++ [.parsed id record.component.template]), ?_,
      fun target member => ?_⟩
    · refine (congrArg (List.cons _) (since.trans (congrArg (newer ++ ·) cleared.deeds))).trans ?_
      rw [List.cons_append, List.append_assoc]
      rfl
    · simp only [List.mem_cons, List.mem_append, List.not_mem_nil, or_false] at member
      rcases member with rendered | shown | parsed
      · cases rendered
      · exact absurd (showing _ shown) nofun
      · cases parsed
  · intro effect below
    have lasting := sustained.lasting effect (cleared.effects ▸ below)
    show bound.graph.isDisposed effect = true ↔ _
    rw [lasting]
    exact cleared.disposed effect below
  · intro effect
    show _ ↔ world.graph.effects.size ≤ effect ∧ effect < bound.graph.effects.size
    rw [← cleared.effects]
    refine ⟨fun listed => ?_, fun within => binds.known effect within.1 within.2⟩
    obtain ⟨charges, added, -, -, fulfils⟩ := binds.charges
    rw [added] at listed
    obtain ⟨charge, member, rfl⟩ := List.mem_map.mp ((List.mem_append.mp listed).resolve_left List.not_mem_nil)
    obtain ⟨fulfilled, recent⟩ := fulfils charge member
    exact ⟨recent, fulfilled.endures.known⟩
  · intro node least most
    refine (handlers node (Nat.lt_of_lt_of_le most planted.size)).trans ?_
    rw [Forest.handlersAt_of_le_size (Nat.le_of_succ_le least), List.nil_append]
  · intro node below
    refine (handlers node (Nat.lt_trans below grown)).trans ?_
    rw [Wire.filter_of_away, List.map_nil, List.append_nil]
    intro wire member same
    have bounds := Markup.bounds_of_mem_wiresAll _ trees wire member
    exact absurd (same ▸ bounds.1) (Nat.not_le_of_lt (Nat.lt_succ_of_lt below))
  · intro node parent below moved
    have found := wired.parents node parent (Nat.lt_trans below grown) (parents node parent below moved)
    rwa [Forest.parent?_eq_shape?, cleared.forest, Forest.shape?_plantFragment trees below,
      ← Forest.parent?_eq_shape?] at found
  · refine Nat.le_trans (Nat.le_trans planted.size gentle.later.nodes) (Nat.le_of_eq ?_)
    exact ((Forest.size_append _ _ _).trans (Forest.size_clear _ _)).symm

/-- A living host that is held can draw its template if the template parses and calls no methods in what it shows. -/
structure Drawable (id : HostId) (record : Host) (trees : List Markup) (world : World) : Prop where
  reachable : world.Reachable
  sound : world.Sound
  homed : world.Homed
  found : world.host? id = some record
  lives : record.alive = true
  alive : world.isAlive record.state = true
  held : .host id ∈ world.holds
  parsed : Markup.parse record.component.template = .ok trees
  free : Markup.EverywhereAll Markup.CallFree trees
  known : record.container < world.forest.size
  near : ∀ child ∈ world.forest.children record.container, child < world.forest.size

/-- A host tells its story, and can still draw its template. -/
theorem Drawable.tell (drawable : world.Drawable id record trees) (milestone : Milestone) :
    (world.tell id milestone).Drawable id { record with story := milestone :: record.story } trees := by
  have found : (world.tell id milestone).host? id = some { record with story := milestone :: record.story } := by
    have told := host?_modifyHost world id id fun host => { host with story := milestone :: host.story }
    rwa [if_pos rfl, drawable.found] at told
  have later : world.Later (world.tell id milestone) := Lasting.later_tell id milestone world
  exact
    { drawable with
      reachable := drawable.reachable
      sound := later.sound drawable.sound
      homed := drawable.homed.tell id milestone
      found }

/-- A host draws its template, and then the code of its component runs. -/
theorem Drawable.renderHost_eq (depth : Nat) (drawable : world.Drawable id record trees) :
    ∃ bindings drawn, world.Draws id record trees bindings drawn ∧
      renderHost (runTo (depth + 1)) id world =
        (discard (runTo (depth + 1) (.rendered id)) >>= fun _ => pure (.ok ())) drawn := by
  obtain ⟨notices, planted⟩ := parseTemplate_eq record.component.template world
  rw [drawable.parsed, (Markup.parse_eq_ok.mp drawable.parsed).2] at planted
  let ready := world.prepared id record trees notices
  have cleared : world.Cleared id record trees ready :=
    cleared_prepared drawable.homed drawable.reachable drawable.found
  have guarded : ready.Guarded record.state (.host id) :=
    guarded_emptied (show World.host? _ id = some record from drawable.found) drawable.lives drawable.alive drawable.held
  obtain ⟨store, stored, -⟩ := (Option.any_eq_true _ _).mp guarded.alive
  have offers : ready.Offers record.state store (.host id) :=
    ⟨cleared.later.reachable drawable.reachable, cleared.later.sound drawable.sound, stored, guarded⟩
  obtain ⟨bindings, bound, binds, draws⟩ := cleared.draws depth offers (Markup.normal_parse drawable.parsed).legal
    drawable.free drawable.known drawable.near
  let installed := bound.installed id record bindings world.forest.size
  let renders := (installed.host? id).elim 0 Host.renders
  refine ⟨bindings, installed.note (.hostRendered renders record.component.selector), draws _, ?_⟩
  have content : renderContent (runTo (depth + 1)) id record world.forest.size
      { world with forest := (world.forest.plantFragment trees).2, notices } =
      discard (runTo (depth + 1) (.rendered id))
        (installed.note (.hostRendered renders record.component.selector)) := by
    have drops : dropBindings id
        ({ world with forest := (world.forest.plantFragment trees).2, notices }.attest
          (.parsed id record.component.template)) = .ok () ready := dropBindings_eq drawable.found
    unfold renderContent
    rw [bind_of_ok (show Live.attest _ _ = .ok () _ from rfl), bind_of_ok drops, bind_of_ok binds,
      bind_of_ok (show installContent _ _ _ _ _ = .ok () installed from rfl)]
    rfl
  unfold renderHost
  rw [get_bind, drawable.found]
  dsimp only
  rw [bind_of_ok planted]
  dsimp only [Except.map]
  rw [bind_apply, content, bind_apply]

end World

end LiveMarkup
