import LiveMarkup.Proofs.Continuing
import LiveMarkup.Proofs.Settled

/-
This file says what a collection leaves alone. It touches neither nodes nor what an operation in
progress holds, and it disposes only effects of hosts.
-/

namespace LiveMarkup

namespace Graph

variable {Task : Type}

theorem isDisposed_dispose_of_ne {graph : Graph Task} {id other : EffectId} (different : id ≠ other) :
    (graph.dispose id).isDisposed other = graph.isDisposed other := by
  unfold isDisposed
  rw [effect?_dispose, if_neg fun both => different both.1]

/-- A release takes dependencies away, and disposes nothing. -/
theorem isDisposed_release (graph : Graph Task) (target : TargetId) (id : EffectId) :
    (graph.release target).isDisposed id = graph.isDisposed id := by
  unfold isDisposed
  rcases effect?_release_or graph target id with same | forgotten
  · rw [same]
  · rw [forgotten]
    cases graph.effect? id <;> rfl

end Graph

namespace World

/-- Objects may end from one world to the other. All else stays. -/
structure Sweeps (before after : World) : Prop extends World.Wanes before after where
  forest : after.forest = before.forest
  deeds : after.deeds = before.deeds
  names : after.names = before.names
  stores : ∀ id, after.isAlive id = true → after.store? id = before.store? id
  records : ∀ id host, after.host? id = some host → host.alive = true → before.host? id = some host
  effects : after.graph.effects.size = before.graph.effects.size

namespace Sweeps

variable {first second third : World}

theorem refl (world : World) : world.Sweeps world :=
  ⟨.refl world, rfl, rfl, rfl, fun _ _ => rfl, fun _ _ found _ => found, rfl⟩

theorem trans (early : first.Sweeps second) (late : second.Sweeps third) : first.Sweeps third where
  toWanes := early.toWanes.trans late.toWanes
  forest := late.forest.trans early.forest
  deeds := late.deeds.trans early.deeds
  names := late.names.trans early.names
  stores id alive := (late.stores id alive).trans (early.stores id (late.states id alive))
  records id host found alive := early.records id host (late.records id host found alive) alive
  effects := late.effects.trans early.effects

/-- Changes of the graph and of the notices end nothing. -/
theorem of_same {before after : World} (holds : after.holds = before.holds)
    (hosts : after.hosts = before.hosts) (targets : after.targets = before.targets)
    (forest : after.forest = before.forest) (deeds : after.deeds = before.deeds)
    (names : after.names = before.names)
    (effects : after.graph.effects.size = before.graph.effects.size) : before.Sweeps after where
  toWanes := .of_same holds hosts targets
  forest := forest
  deeds := deeds
  names := names
  stores id _ := by
    unfold store?
    rw [targets]
  records id host found _ := by
    unfold host? at found ⊢
    rwa [hosts] at found
  effects := effects

theorem foldl {A : Type} {change : World → A → World}
    (step : ∀ (world : World) item, world.Sweeps (change world item)) (world : World)
    (items : List A) : world.Sweeps (items.foldl change world) :=
  List.foldlRecOn items change (refl world) fun after early item _ => early.trans (step after item)

end Sweeps

theorem sweeps_disposeEffect (world : World) (id : EffectId) :
    world.Sweeps (world.disposeEffect id) := by
  unfold disposeEffect
  split
  · exact .refl world
  · split
    · exact .refl world
    · exact .of_same rfl rfl rfl rfl rfl rfl (Graph.size_dispose _ _)

theorem sweeps_disposeBindings (world : World) (bindings : Bindings) :
    world.Sweeps (world.disposeBindings bindings) := by
  have disposed := Sweeps.foldl sweeps_disposeEffect world bindings.effects
  unfold disposeBindings
  dsimp only
  split
  · exact disposed
  · exact disposed.trans (.of_same rfl rfl rfl rfl rfl rfl rfl)

/-- This is the host as its end leaves it. -/
def Host.dead (host : Host) : Host :=
  { host with alive := false, bindings := {}, renderEffect := none }

/-- The record of a host ends before its effects are disposed. -/
theorem endHost_eq (world : World) (id : HostId) :
    (world.host? id = none ∧ world.endHost id = world) ∨ ∃ host, world.host? id = some host ∧
      world.endHost id = (host.renderEffect.toList.foldl disposeEffect
        (world.modifyHost id Host.dead)).disposeBindings host.bindings := by
  unfold endHost
  split
  · rename_i none
    exact Or.inl ⟨none, rfl⟩
  · rename_i host found
    refine Or.inr ⟨host, found, ?_⟩
    cases host.renderEffect <;> rfl

theorem sweeps_endHost (world : World) (id : HostId) : world.Sweeps (world.endHost id) := by
  rcases endHost_eq world id with ⟨-, same⟩ | ⟨host, found, ends⟩
  · rw [same]
    exact .refl world
  · rw [ends]
    have marked : world.Sweeps (world.modifyHost id Host.dead) := by
      have record : ∀ other host, (world.modifyHost id Host.dead).host? other = some host →
          host.alive = true → world.host? other = some host := by
        intro other host looked alive
        rw [host?_modifyHost] at looked
        split at looked
        · obtain ⟨old, _, same⟩ := Option.map_eq_some_iff.mp looked
          rw [← same] at alive
          cases alive
        · exact looked
      refine ⟨⟨rfl, by simp [modifyHost], rfl, ?_, fun _ alive => alive⟩, rfl, rfl, rfl,
        fun _ _ => rfl, record, rfl⟩
      intro other alive
      cases looked : (world.modifyHost id Host.dead).host? other with
      | none => simp [looked] at alive
      | some host =>
          rw [looked] at alive
          rw [record other host looked alive]
          exact alive
    exact (marked.trans (.foldl sweeps_disposeEffect _ _)).trans (sweeps_disposeBindings _ _)

theorem sweeps_endState (world : World) (id : TargetId) : world.Sweeps (world.endState id) := by
  obtain ⟨wanes, dead⟩ := wanes_endState world id
  refine ⟨wanes, rfl, rfl, rfl, ?_, fun _ _ found _ => found, Graph.size_release _ _⟩
  intro other alive
  have different : id ≠ other := by
    intro same
    subst same
    rw [dead] at alive
    cases alive
  show (world.modifyStore id fun store => { store with alive := false }).store? other = _
  rw [store?_modifyStore, if_neg different]

theorem sweeps_collect (world : World) : world.Sweeps world.collect :=
  collect_of_rounds Sweeps .refl .trans (fun world => .foldl sweeps_endState world _)
    (fun world => .foldl sweeps_endHost world _) world

/-! What ends with a host. -/

/-- Disposals concern neither states nor the records of hosts. -/
theorem objects_disposeEffect (world : World) (id : EffectId) :
    (world.disposeEffect id).targets = world.targets ∧
      (world.disposeEffect id).hosts = world.hosts := by
  unfold disposeEffect
  split
  · exact ⟨rfl, rfl⟩
  · split <;> exact ⟨rfl, rfl⟩

theorem objects_foldl_disposeEffect (ids : List EffectId) (world : World) :
    (ids.foldl disposeEffect world).targets = world.targets ∧
      (ids.foldl disposeEffect world).hosts = world.hosts := by
  refine List.foldlRecOn (motive := fun after => after.targets = world.targets ∧
    after.hosts = world.hosts) ids disposeEffect ⟨rfl, rfl⟩ fun after early id _ => ?_
  obtain ⟨targets, hosts⟩ := objects_disposeEffect after id
  exact ⟨targets.trans early.1, hosts.trans early.2⟩

theorem objects_disposeBindings (world : World) (bindings : Bindings) :
    (world.disposeBindings bindings).targets = world.targets ∧
      (world.disposeBindings bindings).hosts = world.hosts := by
  have disposed := objects_foldl_disposeEffect bindings.effects world
  unfold disposeBindings
  dsimp only
  split <;> exact disposed

/-- The end of a host concerns no state, and no other host. -/
theorem objects_endHost (world : World) (id : HostId) :
    (world.endHost id).targets = world.targets ∧ ∀ other, (world.endHost id).host? other =
      if id = other then (world.host? other).map Host.dead else world.host? other := by
  rcases endHost_eq world id with ⟨none, same⟩ | ⟨host, -, ends⟩
  · rw [same]
    refine ⟨rfl, fun other => ?_⟩
    split
    · rename_i here
      subst here
      rw [none]
      rfl
    · rfl
  · obtain ⟨targets, hosts⟩ := objects_disposeBindings (host.renderEffect.toList.foldl disposeEffect
      (world.modifyHost id Host.dead)) host.bindings
    obtain ⟨targetsBefore, hostsBefore⟩ := objects_foldl_disposeEffect host.renderEffect.toList
      (world.modifyHost id Host.dead)
    rw [ends]
    refine ⟨targets.trans targetsBefore, fun other => ?_⟩
    rw [← host?_modifyHost]
    unfold host?
    rw [hosts, hostsBefore]

/-! Disposed effects. -/

/-- A place no longer holds what it refers to, if it belongs to a host that has ended. -/
def Place.Lost (world : World) : Place → Prop
  | .content host => ∀ record, world.host? host = some record → record.alive = false
  | _ => True

theorem Place.Lost.later {before after : World} {place : Place} (lost : place.Lost before)
    (later : before.Later after) (known : ∀ host, place = .content host →
      (before.host? host).isSome = true) : place.Lost after := by
  cases place with
  | content host =>
      intro record found
      obtain ⟨old, looked⟩ := Option.isSome_iff_exists.mp (known host rfl)
      obtain ⟨newer, reached, -, -, alive⟩ := later.hosts host old looked
      cases reached.symm.trans found
      cases lives : record.alive with
      | false => rfl
      | true => exact absurd (alive lives) (by rw [lost old looked]; exact Bool.false_ne_true)
  | _ => trivial

/-- Effects are disposed only if something refers to them. The content of a host is disposed only with
the host. -/
def Spares (before after : World) : Prop :=
  ∀ id < before.graph.effects.size, after.graph.isDisposed id = true →
    before.graph.isDisposed id = true ∨ ∃ place, before.RefersAt id place ∧ place.Lost after

theorem Spares.trans {first second third : World} (early : first.Spares second)
    (later : first.Later second) (late : second.Spares third) (last : second.Later third) :
    first.Spares third := by
  intro id below disposed
  rcases late id (Nat.lt_of_lt_of_le below later.effects) disposed with already | ⟨place, refers, lost⟩
  · rcases early id below already with gone | ⟨place, refers, lost⟩
    · exact Or.inl gone
    · refine Or.inr ⟨place, refers, lost.later last ?_⟩
      rintro host rfl
      obtain ⟨record, found, -⟩ := refers
      obtain ⟨newer, reached, -⟩ := later.hosts host record found
      rw [reached]
      rfl
  · exact Or.inr ⟨place, later.inherits id place below refers, lost⟩

theorem Spares.of_same {before after : World} (graph : after.graph = before.graph) :
    before.Spares after := by
  intro id _ disposed
  rw [graph] at disposed
  exact Or.inl disposed

/-- A disposal concerns no other effect. -/
theorem isDisposed_disposeEffect {world : World} {id other : EffectId} (different : id ≠ other) :
    (world.disposeEffect id).graph.isDisposed other = world.graph.isDisposed other := by
  unfold disposeEffect
  split
  · rfl
  · split
    · rfl
    · exact Graph.isDisposed_dispose_of_ne different

theorem isDisposed_foldl_disposeEffect {other : EffectId} (ids : List EffectId) (world : World)
    (absent : other ∉ ids) :
    (ids.foldl disposeEffect world).graph.isDisposed other = world.graph.isDisposed other := by
  induction ids generalizing world with
  | nil => rfl
  | cons id rest inductionHypothesis =>
      obtain ⟨apart, later⟩ := not_or.mp (mt List.mem_cons.mpr absent)
      rw [List.foldl_cons, inductionHypothesis _ later, isDisposed_disposeEffect (Ne.symm apart)]

theorem graph_disposeBindings (world : World) (bindings : Bindings) :
    (world.disposeBindings bindings).graph = (bindings.effects.foldl disposeEffect world).graph := by
  unfold disposeBindings
  dsimp only
  split <;> rfl

/-- A host that ends disposes the effects that it refers to. -/
theorem spares_endHost (world : World) (id : HostId) : world.Spares (world.endHost id) := by
  rcases endHost_eq world id with ⟨-, same⟩ | ⟨host, found, ends⟩
  · rw [same]
    exact .of_same rfl
  · intro other below disposed
    have dead : (world.endHost id).host? id = some (Host.dead host) := by
      rw [(objects_endHost world id).2, if_pos rfl, found]
      rfl
    rw [ends, graph_disposeBindings] at disposed
    by_cases bound : other ∈ host.bindings.effects
    · refine Or.inr ⟨.content id, ⟨host, found, bound⟩, fun record reached => ?_⟩
      cases dead.symm.trans reached
      rfl
    · rw [isDisposed_foldl_disposeEffect _ _ bound] at disposed
      by_cases renders : other ∈ host.renderEffect.toList
      · exact Or.inr ⟨.renderer id, ⟨host, found, Option.mem_toList.mp renders⟩, trivial⟩
      · rw [isDisposed_foldl_disposeEffect _ _ renders] at disposed
        exact Or.inl disposed

theorem spares_foldl {A : Type} {change : World → A → World}
    (later : ∀ (world : World) item, world.Later (change world item))
    (step : ∀ (world : World) item, world.Spares (change world item)) (world : World)
    (items : List A) : world.Spares (items.foldl change world) := by
  have both := List.foldlRecOn (motive := fun after => world.Later after ∧ world.Spares after)
    items change ⟨.refl world, .of_same rfl⟩ fun after early item _ =>
      ⟨early.1.trans (later after item), early.2.trans early.1 (step after item) (later after item)⟩
  exact both.2

/-- States that end dispose nothing. -/
theorem spares_endStates (world : World) (ids : List TargetId) :
    world.Spares (ids.foldl endState world) := by
  intro id _ disposed
  have kept : (ids.foldl endState world).graph.isDisposed id = world.graph.isDisposed id :=
    List.foldlRecOn (motive := fun after => after.graph.isDisposed id = world.graph.isDisposed id)
      ids endState rfl fun after early target _ =>
      (Graph.isDisposed_release after.graph target id).trans early
  exact Or.inl (kept ▸ disposed)

theorem spares_collect (world : World) : world.Spares world.collect :=
  (collect_of_rounds (fun before after => before.Later after ∧ before.Spares after)
    (fun world => ⟨.refl world, .of_same rfl⟩)
    (fun early late => ⟨early.1.trans late.1, early.2.trans early.1 late.2 late.1⟩)
    (fun world => ⟨later_rounds world, spares_endStates world _⟩)
    (fun world => ⟨later_foldl later_endHost world _, spares_foldl later_endHost spares_endHost world _⟩)
    world).2

/-! What is held does not end. -/

/-- A living state is guarded if an operation holds it, or holds a living host of it. -/
structure Guarded (state : TargetId) (guard : Hold) (world : World) : Prop where
  alive : world.isAlive state = true
  held : guard ∈ world.holds
  keeps : guard = .state state ∨ ∃ id host, guard = .host id ∧ world.host? id = some host ∧
    host.alive = true ∧ host.state = state

theorem not_mem_statesToEnd {world : World} {state : TargetId} {guard : Hold}
    (guarded : world.Guarded state guard) : state ∉ world.statesToEnd := by
  intro member
  obtain ⟨-, free, -⟩ := (mem_statesToEnd world state).mp member
  apply free
  unfold stateReferences
  rcases guarded.keeps with same | ⟨id, host, -, found, alive, same⟩
  · have held := guarded.held
    rw [same] at held
    apply List.mem_append_left
    exact List.mem_append_right _ (List.mem_filterMap.mpr ⟨_, held, rfl⟩)
  · apply List.mem_append_right
    have member : host ∈ world.hosts.toList.filter Host.alive :=
      List.mem_filter.mpr ⟨Array.mem_toList_iff.mpr (Array.mem_of_getElem? found), alive⟩
    exact List.mem_map.mpr ⟨host, member, same⟩

theorem not_mem_hostsToEnd {world : World} {id : HostId} (held : .host id ∈ world.holds) :
    id ∉ world.hostsToEnd := by
  intro member
  have ends := (List.mem_filter.mp member).2
  have kept : world.holdsHost id = true := by
    unfold holdsHost
    rw [Bool.or_eq_true]
    exact Or.inr (List.contains_iff_mem.mpr held)
  rw [kept] at ends
  simp at ends

/-- The end of other objects does not concern what is guarded. -/
theorem guarded_endState {world : World} {state other : TargetId} {guard : Hold}
    (guarded : world.Guarded state guard) (different : other ≠ state) :
    (world.endState other).Guarded state guard := by
  refine ⟨?_, guarded.held, guarded.keeps⟩
  have same : (world.endState other).store? state = world.store? state := by
    show (world.modifyStore other fun store => { store with alive := false }).store? state = _
    rw [store?_modifyStore, if_neg different]
  have alive := guarded.alive
  unfold isAlive at alive ⊢
  rwa [same]

theorem guarded_endHost {world : World} {state : TargetId} {guard : Hold} {id : HostId}
    (guarded : world.Guarded state guard) (free : .host id ∉ world.holds) :
    (world.endHost id).Guarded state guard := by
  obtain ⟨targets, others⟩ := objects_endHost world id
  constructor
  · have alive := guarded.alive
    unfold isAlive store? at alive ⊢
    rwa [targets]
  · rw [(sweeps_endHost world id).holds]
    exact guarded.held
  · refine guarded.keeps.imp_right ?_
    rintro ⟨other, host, held, found, lives, same⟩
    have different : id ≠ other := by
      intro equal
      subst equal
      exact free (held ▸ guarded.held)
    exact ⟨other, host, held, by rw [others, if_neg different, found], lives, same⟩

theorem guarded_foldl_endState {state : TargetId} {guard : Hold} (ids : List TargetId) (world : World)
    (guarded : world.Guarded state guard) (absent : state ∉ ids) :
    (ids.foldl endState world).Guarded state guard := by
  induction ids generalizing world with
  | nil => exact guarded
  | cons id rest inductionHypothesis =>
      obtain ⟨apart, later⟩ := not_or.mp (mt List.mem_cons.mpr absent)
      exact inductionHypothesis _ (guarded_endState guarded (Ne.symm apart)) later

theorem guarded_foldl_endHost {state : TargetId} {guard : Hold} (ids : List HostId) (world : World)
    (guarded : world.Guarded state guard) (free : ∀ id ∈ ids, .host id ∉ world.holds) :
    (ids.foldl endHost world).Guarded state guard := by
  induction ids generalizing world with
  | nil => exact guarded
  | cons id rest inductionHypothesis =>
      have first := guarded_endHost guarded (free id List.mem_cons_self)
      refine inductionHypothesis _ first fun other member => ?_
      rw [(sweeps_endHost world id).holds]
      exact free other (List.mem_cons_of_mem _ member)

theorem guarded_collect {state : TargetId} {guard : Hold} {world : World}
    (guarded : world.Guarded state guard) : world.collect.Guarded state guard :=
  collect_of_rounds (fun before after => before.Guarded state guard → after.Guarded state guard)
    (fun _ guarded => guarded) (fun early late guarded => late (early guarded))
    (fun world guarded => guarded_foldl_endState _ world guarded (not_mem_statesToEnd guarded))
    (fun world guarded => guarded_foldl_endHost _ world guarded fun _ member held =>
      not_mem_hostsToEnd held member) world guarded

/-! A living host keeps its state. -/

/-- The state of a host lives on, as long as the host does. -/
def Houses (host : HostId) (before after : World) : Prop :=
  ∀ old record, before.host? host = some old → after.host? host = some record → record.alive = true →
    before.isAlive old.state = true → after.isAlive old.state = true

theorem Houses.of_targets {host : HostId} {before after : World}
    (targets : after.targets = before.targets) : before.Houses host after := by
  intro old record _ _ _ alive
  unfold isAlive store? at alive ⊢
  rwa [targets]

theorem Houses.trans {host : HostId} {first second third : World} (early : first.Houses host second)
    (later : first.Later second) (late : second.Houses host third) (last : second.Later third) :
    first.Houses host third := by
  intro old record found reached lives alive
  obtain ⟨middle, known, -, state, -⟩ := later.hosts host old found
  obtain ⟨newest, again, -, -, livesBefore⟩ := last.hosts host middle known
  cases again.symm.trans reached
  rw [← state]
  exact late middle record known reached lives
    (state ▸ early old middle found known (livesBefore lives) alive)

theorem isAlive_foldl_endState {state : TargetId} (ids : List TargetId) (world : World)
    (absent : state ∉ ids) : (ids.foldl endState world).isAlive state = world.isAlive state := by
  induction ids generalizing world with
  | nil => rfl
  | cons id rest inductionHypothesis =>
      obtain ⟨apart, later⟩ := not_or.mp (mt List.mem_cons.mpr absent)
      have same : (world.endState id).store? state = world.store? state := by
        show (world.modifyStore id fun store => { store with alive := false }).store? state = _
        rw [store?_modifyStore, if_neg (Ne.symm apart)]
      rw [List.foldl_cons, inductionHypothesis _ later, isAlive, isAlive, same]

theorem hosts_foldl_endState (ids : List TargetId) (world : World) :
    (ids.foldl endState world).hosts = world.hosts :=
  List.foldlRecOn (motive := fun after : World => after.hosts = world.hosts) ids endState rfl
    fun _ early _ _ => early

theorem targets_foldl_endHost (ids : List HostId) (world : World) :
    (ids.foldl endHost world).targets = world.targets :=
  List.foldlRecOn (motive := fun after => after.targets = world.targets) ids endHost rfl
    fun after early id _ => (objects_endHost after id).1.trans early

theorem houses_endStates (host : HostId) (world : World) :
    world.Houses host (world.statesToEnd.foldl endState world) := by
  intro old record found reached lives alive
  unfold host? at reached
  rw [hosts_foldl_endState] at reached
  cases reached.symm.trans found
  rw [isAlive_foldl_endState _ world, alive]
  intro member
  obtain ⟨-, free, -⟩ := (mem_statesToEnd world old.state).mp member
  apply free
  apply List.mem_append_right
  exact List.mem_map.mpr ⟨old, List.mem_filter.mpr
    ⟨Array.mem_toList_iff.mpr (Array.mem_of_getElem? found), lives⟩, rfl⟩

theorem houses_collect (host : HostId) (world : World) : world.Houses host world.collect :=
  (collect_of_rounds (fun before after => before.Later after ∧ before.Houses host after)
    (fun world => ⟨.refl world, .of_targets rfl⟩)
    (fun early late => ⟨early.1.trans late.1, early.2.trans early.1 late.2 late.1⟩)
    (fun world => ⟨later_rounds world, houses_endStates host world⟩)
    (fun world => ⟨later_foldl later_endHost world _, .of_targets (targets_foldl_endHost _ world)⟩)
    world).2

end World

end LiveMarkup
