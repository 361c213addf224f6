import LiveMarkup.Proofs.Surviving

/-
This file shows that all code of a world keeps it orderly: what is left of a state that has ended is
neither an entry of the table nor a record of an effect.
-/

namespace LiveMarkup

namespace World

/-- Only states that have not ended are mentioned in the graph, except where somebody tracked an identity
by hand after the end of its state. Living hosts have living states. -/
structure Orderly (world : World) : Prop where
  reachable : world.Reachable
  cleared : ∀ id, world.graph.Mentions id →
    world.hasEnded id = false ∨ Deed.strayed id ∈ world.deeds
  housed : ∀ id host, world.host? id = some host → host.alive = true →
    world.isAlive host.state = true

namespace Orderly

variable {before after world : World}

/-- What the table has no entry for is mentioned nowhere. -/
theorem cleared_of_table (reachable : world.Reachable)
    (table : ∀ id, world.hasEnded id = true →
      world.graph.hasTarget id = false ∨ Deed.strayed id ∈ world.deeds) (id : TargetId)
    (mentions : world.graph.Mentions id) :
    world.hasEnded id = false ∨ Deed.strayed id ∈ world.deeds := by
  obtain ⟨moves, path⟩ := reachable
  have known := (path.recorded.agrees.mentions_iff id).mp mentions
  cases gone : world.hasEnded id with
  | false => exact Or.inl rfl
  | true =>
      refine Or.inr ((table id gone).resolve_left fun free => ?_)
      exact Bool.false_ne_true (free.symm.trans known)

theorem table (orderly : world.Orderly) {id : TargetId} (gone : world.hasEnded id = true) :
    world.graph.hasTarget id = false ∨ Deed.strayed id ∈ world.deeds := by
  cases known : world.graph.hasTarget id with
  | false => exact Or.inl rfl
  | true =>
      refine Or.inr ((orderly.cleared id (Or.inl known)).resolve_left fun lasts => ?_)
      exact Bool.false_ne_true (lasts.symm.trans gone)

/-- Order is kept if the graph gains no entry for what has ended. -/
theorem of_table (orderly : before.Orderly) (reachable : before.Reachable → after.Reachable)
    (deeds : ∀ id, Deed.strayed id ∈ before.deeds → Deed.strayed id ∈ after.deeds)
    (table : ∀ id, after.hasEnded id = true → after.graph.hasTarget id = false ∨
      Deed.strayed id ∈ after.deeds ∨
        (before.hasEnded id = true ∧
          (before.graph.hasTarget id = false → after.graph.hasTarget id = false)))
    (housed : ∀ id host, after.host? id = some host → host.alive = true →
      after.isAlive host.state = true) : after.Orderly where
  reachable := reachable orderly.reachable
  cleared := by
    refine cleared_of_table (reachable orderly.reachable) fun id gone => ?_
    rcases table id gone with free | strayed | ⟨early, kept⟩
    · exact Or.inl free
    · exact Or.inr strayed
    · exact (orderly.table early).imp kept (deeds id)
  housed := housed

/-- A state that ends takes its entry along. -/
theorem cascade {chosen : EffectId → Prop} (orderly : before.Orderly)
    (cascades : before.Cascades chosen after) (deeds : after.deeds = before.deeds)
    (houses : ∀ host, before.Houses host after) : after.Orderly := by
  refine orderly.of_table cascades.reachable (fun _ strayed => deeds ▸ strayed) ?_ ?_
  · intro id gone
    rcases cascades.released id gone with early | free
    · exact Or.inr (Or.inr ⟨early, cascades.table id⟩)
    · exact Or.inl free
  · intro id host found alive
    have known := cascades.records id host found alive
    exact houses id host host known found alive (orderly.housed id host known alive)

end Orderly

/-- What an operation holds while it lives stays so, and order is kept. -/
structure Tends (before after : World) : Prop where
  guarded : ∀ id, before.Guarded id (.state id) → after.Guarded id (.state id)
  orderly : before.Orderly → after.Orderly

namespace Tends

variable {before after world : World}

theorem refl (world : World) : world.Tends world := ⟨fun _ guarded => guarded, fun orderly => orderly⟩

theorem trans {first second third : World} (early : first.Tends second) (late : second.Tends third) :
    first.Tends third :=
  ⟨fun id guarded => late.guarded id (early.guarded id guarded),
    fun orderly => late.orderly (early.orderly orderly)⟩

/-- The graph may change if it gains no entry for what has ended. States may begin, and hosts may change
that keep their states. -/
theorem of_steady (reachable : before.Reachable → after.Reachable)
    (table : ∀ id, before.hasEnded id = true → before.graph.hasTarget id = false →
      after.graph.hasTarget id = false)
    (deeds : before.deeds <:+ after.deeds)
    (holds : ∀ held ∈ before.holds, held ∈ after.holds)
    (alive : ∀ id, before.isAlive id = true → after.isAlive id = true)
    (ended : ∀ id, after.hasEnded id = true → before.hasEnded id = true)
    (hosts : ∀ id host, after.host? id = some host → host.alive = true →
      (∃ old, before.host? id = some old ∧ old.alive = true ∧ old.state = host.state) ∨
        after.isAlive host.state = true) : before.Tends after where
  guarded id guarded := ⟨alive id guarded.alive, holds _ guarded.held, Or.inl rfl⟩
  orderly orderly := by
    refine orderly.of_table reachable (fun id strayed => deeds.subset strayed)
      (fun id gone => Or.inr (Or.inr ⟨ended id gone, table id (ended id gone)⟩)) ?_
    intro id host found lives
    rcases hosts id host found lives with ⟨old, known, living, same⟩ | lives
    · exact alive _ (same ▸ orderly.housed id old known living)
    · exact lives

theorem of_graph (reachable : before.Reachable → after.Reachable)
    (table : ∀ id, before.hasEnded id = true → before.graph.hasTarget id = false →
      after.graph.hasTarget id = false)
    (targets : after.targets = before.targets) (hosts : after.hosts = before.hosts)
    (holds : ∀ held ∈ before.holds, held ∈ after.holds) (deeds : before.deeds <:+ after.deeds) :
    before.Tends after := by
  refine of_steady reachable table deeds holds ?_ ?_ ?_
  · unfold isAlive store?
    rw [targets]
    exact fun _ alive => alive
  · unfold hasEnded store?
    rw [targets]
    exact fun _ gone => gone
  · intro id host found alive
    unfold host? at found ⊢
    rw [hosts] at found
    exact Or.inl ⟨host, found, alive, rfl⟩

/-- Names, nodes, records and further holds do not matter. -/
theorem of_same (graph : after.graph = before.graph) (targets : after.targets = before.targets)
    (hosts : after.hosts = before.hosts) (holds : ∀ held ∈ before.holds, held ∈ after.holds)
    (deeds : before.deeds <:+ after.deeds) : before.Tends after := by
  refine of_graph ?_ ?_ targets hosts holds deeds
  · unfold Reachable
    rw [graph]
    exact fun reachable => reachable
  · rw [graph]
    exact fun _ _ free => free

theorem modifyStore (world : World) (id : TargetId) {change : Store → Store}
    (alive : ∀ store, (change store).alive = store.alive) : world.Tends (world.modifyStore id change) := by
  have living : ∀ other, (world.modifyStore id change).isAlive other = world.isAlive other :=
    isAlive_modifyStore alive
  have ended : ∀ other, (world.modifyStore id change).hasEnded other = world.hasEnded other := by
    intro other
    unfold hasEnded
    rw [store?_modifyStore]
    split
    · cases world.store? other with
      | none => rfl
      | some store => exact congrArg (! ·) (alive store)
    · rfl
  refine of_steady (fun reachable => reachable) (fun _ _ free => free) (List.suffix_refl _)
    (fun _ held => held) (fun other lives => (living other).trans lives)
    (fun other gone => (ended other).symm.trans gone) ?_
  exact fun _ host found lives => Or.inl ⟨host, found, lives, rfl⟩

/-- A state lives when it begins. -/
theorem addTarget (store : Option Store) (world : World) (alive : store.all Store.alive = true) :
    world.Tends (world.addTarget store).2 := by
  refine of_steady (fun reachable => reachable) (fun _ _ free => free) (List.suffix_refl _)
    (fun _ held => held) (fun _ lives => isAlive_addTarget store lives) ?_ ?_
  · intro id gone
    have found : (world.addTarget store).2.store? id = ((world.targets.push store)[id]?).join := rfl
    unfold hasEnded at gone ⊢
    rw [found, Array.getElem?_push] at gone
    split at gone
    · cases store with
      | none => cases gone
      | some store =>
          have lives : store.alive = true := alive
          have ended : (!store.alive) = true := gone
          rw [lives] at ended
          cases ended
    · exact gone
  · exact fun _ host found lives => Or.inl ⟨host, found, lives, rfl⟩

/-- A host begins with a living state. -/
theorem withHost (component : Component Script) {state : TargetId} (container : NodeId) (world : World)
    (alive : world.isAlive state = true) : world.Tends (world.withHost component state container) := by
  refine of_steady (fun reachable => reachable) (fun _ _ free => free) (List.suffix_refl _)
    (fun _ held => held) (fun _ lives => lives) (fun _ gone => gone) ?_
  intro id found looked lives
  rcases host?_of_withHost looked with old | ⟨-, rfl⟩
  · exact Or.inl ⟨found, old, lives, rfl⟩
  · exact Or.inr alive

theorem modifyHost (world : World) (id : HostId) {change : Host → Host}
    (state : ∀ host, (change host).state = host.state)
    (alive : ∀ host, (change host).alive = true → host.alive = true) :
    world.Tends (world.modifyHost id change) := by
  refine of_steady (fun reachable => reachable) (fun _ _ free => free) (List.suffix_refl _)
    (fun _ held => held) (fun _ lives => lives) (fun _ gone => gone) ?_
  intro other host found lives
  rw [host?_modifyHost] at found
  split at found
  · obtain ⟨old, known, rfl⟩ := Option.map_eq_some_iff.mp found
    exact Or.inl ⟨old, known, alive old lives, (state old).symm⟩
  · exact Or.inl ⟨host, found, lives, rfl⟩

/-- What a host is told changes its story only. -/
theorem tell (id : HostId) (milestone : Milestone) (world : World) :
    world.Tends (world.tell id milestone) :=
  modifyHost world id (fun _ => rfl) fun _ lives => lives

theorem withEffect (label : String) (task : Task) (captures : List TargetId) (world : World) :
    world.Tends (world.withEffect label task captures) := by
  refine of_graph ?_ (fun _ _ free => free) rfl rfl (fun _ held => held) (List.suffix_refl _)
  rintro ⟨moves, path⟩
  exact ⟨_, path.step (.created label task captures) trivial⟩

/-- Only hosts end together with effects, and what an operation holds does not end. -/
theorem of_cascade {chosen : EffectId → Prop} (cascades : before.Cascades chosen after)
    (sweeps : before.Sweeps after) (targets : after.targets = before.targets) : before.Tends after where
  guarded id guarded := by
    refine ⟨?_, sweeps.holds ▸ guarded.held, Or.inl rfl⟩
    have alive := guarded.alive
    unfold isAlive store? at alive ⊢
    rwa [targets]
  orderly orderly := orderly.cascade cascades sweeps.deeds fun _ => .of_targets targets

theorem disposeEffect (world : World) (id : EffectId) : world.Tends (world.disposeEffect id) :=
  of_cascade (cascades_disposeEffect rfl world : world.Cascades (id = ·) _)
    (sweeps_disposeEffect world id) (objects_disposeEffect world id).1

theorem disposeBindings (world : World) (bindings : Bindings) :
    world.Tends (world.disposeBindings bindings) :=
  of_cascade (cascades_disposeBindings (fun _ member => member) world :
      world.Cascades (· ∈ bindings.effects) _)
    (sweeps_disposeBindings world bindings) (objects_disposeBindings world bindings).1

theorem collect (world : World) : world.Tends world.collect where
  guarded _ guarded := guarded_collect guarded
  orderly orderly := orderly.cascade (yields_collect world : world.Yields (fun _ => False) _).toCascades
    (sweeps_collect world).deeds fun host => houses_collect host world

/-- An operation that ends lets go of nothing that was held before it. -/
theorem close (tends : world.Tends after) : world.Tends { after with holds := world.holds }.collect where
  guarded id guarded := by
    have inner := tends.guarded id guarded
    have held : ({ after with holds := world.holds } : World).Guarded id (.state id) :=
      ⟨inner.alive, guarded.held, Or.inl rfl⟩
    exact guarded_collect held
  orderly orderly := by
    have inner := tends.orderly orderly
    have same : ({ after with holds := world.holds } : World).Orderly :=
      ⟨inner.reachable, inner.cleared, inner.housed⟩
    exact (collect _).orderly same

theorem enter {frame : Option EffectId} (allowed : world.graph.Allows (.entered frame)) :
    world.Tends (world.entered frame) := by
  refine of_graph ?_ ?_ rfl rfl (fun _ held => held) (List.suffix_refl _)
  · rintro ⟨moves, path⟩
    exact ⟨_, path.step (.entered frame) allowed⟩
  · cases frame <;> exact fun _ _ free => free

theorem leave (world : World) : world.Tends { world with graph := world.graph.pop } := by
  refine of_graph ?_ (fun _ _ free => free) rfl rfl (fun _ held => held) (List.suffix_refl _)
  rintro ⟨moves, path⟩
  exact ⟨_, path.step .left trivial⟩

/-- A read mentions its own target only, which must not have ended in silence. -/
theorem track (world : World) (dependency : Dependency)
    (allowed : world.Orderly → world.hasEnded dependency.target = false ∨
      Deed.strayed dependency.target ∈ world.deeds) :
    world.Tends { world with graph := world.graph.track dependency } where
  guarded id guarded := ⟨guarded.alive, guarded.held, Or.inl rfl⟩
  orderly orderly := by
    refine orderly.of_table ?_ (fun _ strayed => strayed) ?_ orderly.housed
    · rintro ⟨moves, path⟩
      exact ⟨_, path.step (.tracked dependency) trivial⟩
    · intro id gone
      by_cases same : id = dependency.target
      · subst same
        refine Or.inr (Or.inl ((allowed orderly).resolve_left fun lasts => ?_))
        exact Bool.false_ne_true (lasts.symm.trans gone)
      · refine Or.inr (Or.inr ⟨gone, fun free => ?_⟩)
        exact (world.graph.hasTarget_track_of_ne same).trans free

end Tends

end World

/-- This conduct keeps worlds orderly and what is held alive, however code ends. States that are held and
live are ready for reads. -/
def Conduct.tending : Conduct where
  calm := World.Tends
  broken := World.Tends
  refl := World.Tends.refl
  trans := World.Tends.trans
  carry := World.Tends.trans
  settle := World.Tends.trans
  ready state world := world.Guarded state (.state state)
  lasts tends guarded := tends.guarded _ guarded

namespace Tending

open Live World

variable {run : Runner} {world : World} {A : Type}

theorem calm_record {after : World} (graph : after.graph = world.graph)
    (targets : after.targets = world.targets) (hosts : after.hosts = world.hosts)
    (holds : after.holds = world.holds) (deeds : world.deeds <:+ after.deeds) :
    Conduct.tending.calm world after :=
  .of_same graph targets hosts (fun _ held => holds ▸ held) deeds

theorem note (notice : Notice) (world : World) : Conduct.tending.calm world (world.note notice) :=
  calm_record rfl rfl rfl rfl (List.suffix_refl _)

theorem attest (deed : Deed) (world : World) : Follows Conduct.tending (Live.attest deed) world :=
  Follows.modifies (calm_record rfl rfl rfl rfl (List.suffix_cons _ _))

theorem inFrame {frame : Option EffectId} {action : Live A}
    (allowed : world.graph.Allows (.entered frame))
    (ends : Conduct.tending.Ends (world.entered frame)
      (action { world with graph := world.graph.push frame })) :
    Follows Conduct.tending (Live.inFrame frame action) world := by
  have left : ∀ after, (world.entered frame).Tends after →
      world.Tends { after with graph := after.graph.pop }.collect :=
    fun after inside => (((Tends.enter allowed).trans inside).trans (.leave after)).trans (.collect _)
  exact Follows.inFrame ends left left

theorem runEffect (keeps : run.Keeps Conduct.tending) (id : EffectId) (world : World) :
    Follows Conduct.tending (Live.runEffect run id) world :=
  Follows.runEffect keeps (fun notice => note notice world) fun allowed _ ends => inFrame allowed ends

/-- A target that was tracked by hand has not ended, or a deed tells that it has. -/
theorem trackByHand (target : TargetId) (key : Key) (world : World) :
    Follows Conduct.tending (Live.trackByHand target key) world := by
  refine Follows.asks ?_
  split
  · refine (attest (.strayed target) world).bind fun _ after outcome => ?_
    cases outcome
    exact Follows.modifies (.track _ ⟨target, key⟩ fun _ => Or.inr List.mem_cons_self)
  · rename_i lasts
    exact Follows.modifies (.track world ⟨target, key⟩ fun _ => Or.inl (Bool.eq_false_iff.mpr lasts))

theorem plain : Plain Conduct.tending where
  finishes _ _ _ := calm_record rfl rfl rfl rfl (List.suffix_refl _)
  notes := note
  meets _ _ := calm_record rfl rfl rfl rfl (List.suffix_refl _)
  parses _ _ := calm_record rfl rfl rfl rfl (List.suffix_refl _)
  holds held world := by
    apply Follows.modifies
    split
    · exact .refl world
    · exact .of_same rfl rfl rfl (fun _ old => List.mem_cons_of_mem _ old) (List.suffix_refl _)
  readies state world alive held := ⟨alive, held, Or.inl rfl⟩
  operates action world follows := ends_ending follows (fun _ tends => .close tends)
    fun _ tends => .close tends
  letsGo id world := by
    apply Follows.modifies
    refine Tends.trans ⟨fun state guarded => ?_, fun orderly => ?_⟩ (.collect _)
    · refine ⟨guarded.alive, ?_, Or.inl rfl⟩
      exact (List.mem_erase_of_ne (fun impossible => by cases impossible)).mpr guarded.held
    · exact ⟨orderly.reachable, orderly.cleared, orderly.housed⟩
  frames guarded := ⟨guarded.alive, guarded.held, Or.inl rfl⟩
  untracks _ _ follows := inFrame trivial follows
  tracks state key world ready := Follows.modifies
    (.track world ⟨state, key⟩ fun _ => Or.inl (hasEnded_eq_false ready.alive))
  tracksByHand := trackByHand
  nodes _ _ := calm_record rfl rfl rfl rfl (List.suffix_refl _)

theorem trigger (keeps : run.Keeps Conduct.tending) (target : TargetId) (name : String)
    (world : World) : Follows Conduct.tending (Live.trigger run target name) world :=
  plain.trigger (fun _ _ => .of_same rfl rfl rfl (fun _ old => List.mem_append_right _ old)
    (List.suffix_refl _)) (runEffect keeps) target name world

theorem putValue (state : TargetId) (key : String) (value : Value) (world : World) :
    Follows Conduct.tending (Live.putValue state key value) world :=
  Follows.modifies (.modifyStore world state fun _ => rfl)

theorem dropBindings (id : HostId) (world : World) :
    Follows Conduct.tending (Live.dropBindings id) world := by
  refine Follows.asks ?_
  split
  · exact Follows.pure _
  · rename_i host _
    have emptied : Follows Conduct.tending
        (Live.modifyHost id fun host => { host with bindings := {} }) world :=
      Follows.modifies (.modifyHost world id (fun _ => rfl) fun _ lives => lives)
    exact emptied.bind fun _ after _ =>
      Follows.modifies (Tends.trans (.disposeBindings after host.bindings) (.collect _))

theorem basic (keeps : run.Keeps Conduct.tending) : Basic Conduct.tending run where
  toPlain := plain
  keeps := keeps
  breaks tends := tends
  records _ _ := calm_record rfl rfl rfl rfl (List.suffix_refl _)
  tracksHost id host key world found alive := Follows.modifies (.track world ⟨host.state, key⟩
    fun orderly => Or.inl (hasEnded_eq_false (orderly.housed id host found alive)))
  names _ _ _ := calm_record rfl rfl rfl rfl (List.suffix_refl _)
  recovers _ _ broken := Tends.trans broken (calm_record rfl rfl rfl rfl (List.suffix_cons _ _))
  emits id _ world _ := .tell id _ world

theorem primitive (keeps : run.Keeps Conduct.tending) :
    Primitive Conduct.tending run fun _ => False where
  toBasic := basic keeps
  collects := .collect
  addsTarget := .addTarget
  presets state key value world :=
    plain.presetValue (attest _) (putValue state key value) world
  writes state key value world :=
    plain.writeValue (putValue state key value world) (trigger keeps state key)
  addsMethod state _ _ world := Follows.modifies (.modifyStore world state fun _ => rfl)
  starts label task captures world _ := .withEffect label task captures world
  runsEffect id world _ := runEffect keeps id world
  triggers := trigger keeps
  releases target world := by
    refine (attest (.released target) world).bind fun _ after _ => Follows.modifies ?_
    refine .of_graph ?_ ?_ rfl rfl (fun _ held => held) (List.suffix_refl _)
    · rintro ⟨moves, path⟩
      exact ⟨_, path.step (.released target) trivial⟩
    · intro id _ free
      rw [Graph.hasTarget_release, free]
      exact ite_self _
  disposes id _ world tends _ := Tends.trans tends (.disposeEffect world id)
  namesEffect _ _ _ _ tends _ :=
    Tends.trans tends (calm_record rfl rfl rfl rfl (List.suffix_refl _))
  namesBindings _ _ _ _ tends _ :=
    Tends.trans tends (calm_record rfl rfl rfl rfl (List.suffix_refl _))
  createsNode _ _ := calm_record rfl rfl rfl rfl (List.suffix_refl _)
  plants _ _ := calm_record rfl rfl rfl rfl (List.suffix_refl _)
  setsValue _ _ _ := calm_record rfl rfl rfl rfl (List.suffix_refl _)
  listens _ _ _ _ := calm_record rfl rfl rfl rfl (List.suffix_refl _)
  edits _ _ _ _ _ _ := calm_record rfl rfl rfl rfl (List.suffix_cons _ _)
  shows _ _ _ := Follows.asks ((attest _ _).bind fun _ _ _ =>
    Follows.modifies (calm_record rfl rfl rfl rfl (List.suffix_refl _)))
  tells id milestone world _ := .tell id milestone world
  addsHost component _ container _ world tends _ ready :=
    Tends.trans tends (.withHost component container world ready.alive)
  startsRenderer label id world := .withEffect label (.render id) [] world
  runsRenderer := runEffect keeps
  namesHost _ _ _ := calm_record rfl rfl rfl rfl (List.suffix_refl _)
  rendersBy id _ _ world tends _ :=
    Tends.trans tends (.modifyHost world id (fun _ => rfl) fun _ lives => lives)
  mounts id world _ := .modifyHost world id (fun _ => rfl) fun _ lives => lives
  changesTemplate id _ world := .modifyHost world id (fun _ => rfl) fun _ lives => lives
  hooks id _ _ world := .modifyHost world id (fun _ => rfl) fun _ lives => lives
  templates _ _ _ _ := calm_record rfl rfl rfl rfl (List.suffix_cons _ _)
  dropsContent id world _ := dropBindings id world
  installs id host bindings fragment origin world _ tends _ := by
    have shown : ∀ deed forest, origin.Tends { world.attest deed with forest } := fun deed forest =>
      Tends.trans tends (calm_record rfl rfl rfl rfl (List.suffix_cons _ _))
    exact Tends.trans (shown _ _) (.modifyHost _ id (fun _ => rfl) fun _ lives => lives)
  removes id _ world _ := Follows.asks ((attest _ _).bind fun _ _ _ =>
    (Follows.modifies (calm_record rfl rfl rfl rfl (List.suffix_refl _))).bind fun _ cleared _ =>
      Follows.modifies (.modifyHost cleared id (fun _ => rfl) fun _ lives => lives))
  rendersOwn _ _ impossible := impossible.elim
  mountsOwn _ _ impossible := impossible.elim
  rerendersOwn _ _ impossible := impossible.elim
  destroysOwn _ _ impossible := impossible.elim

end Tending

theorem lawful_tending (depth : Nat) : Lawful Conduct.tending (Live.runTo depth) :=
  (Tending.primitive (Runner.keeps_runTo World.Tends.refl
    (fun _ keeps => (Tending.primitive keeps).lawful) depth)).lawful

end LiveMarkup
