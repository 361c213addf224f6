import LiveMarkup.Proofs.Sweeping

/-
This file says what bindings leave alone when they run.
-/

namespace LiveMarkup

namespace Graph

/-- A read disposes nothing. -/
theorem isDisposed_track {Task : Type} (graph : Graph Task) (dependency : Dependency) (id : EffectId) :
    (graph.track dependency).isDisposed id = graph.isDisposed id := by
  rcases track_eq graph dependency with ⟨same, -⟩ | ⟨reader, -, -, subscribed⟩
  · rw [same]
  · unfold isDisposed
    rw [subscribed, effect?_subscribe]
    split
    · cases graph.effect? id <;> rfl
    · rfl

/-- An effect that exists now existed before, and depends on nothing that it did not depend on then. -/
def GainsNothing {Task : Type} (id : EffectId) (before after : Graph Task) : Prop :=
  ∀ effect, after.effect? id = some effect →
    ∃ older, before.effect? id = some older ∧ ∀ dependency ∈ effect.dependencies,
      dependency ∈ older.dependencies

namespace GainsNothing

variable {Task : Type} {id : EffectId} {first second third : Graph Task}

theorem refl (id : EffectId) (graph : Graph Task) : GainsNothing id graph graph :=
  fun effect found => ⟨effect, found, fun _ listed => listed⟩

theorem trans (early : GainsNothing id first second) (late : GainsNothing id second third) :
    GainsNothing id first third := by
  intro effect found
  obtain ⟨middle, known, fewer⟩ := late effect found
  obtain ⟨older, original, least⟩ := early middle known
  exact ⟨older, original, fun dependency listed => least dependency (fewer dependency listed)⟩

theorem of_dependencies
    (same : (second.effect? id).map Effect.dependencies = (first.effect? id).map Effect.dependencies) :
    GainsNothing id first second := by
  intro effect found
  rw [found] at same
  obtain ⟨older, known, equal⟩ := Option.map_eq_some_iff.mp same.symm
  exact ⟨older, known, fun _ listed => equal ▸ listed⟩

theorem foldl {A : Type} {change : Graph Task → A → Graph Task}
    (step : ∀ graph item, GainsNothing id graph (change graph item)) (graph : Graph Task)
    (items : List A) : GainsNothing id graph (items.foldl change graph) :=
  List.foldlRecOn items change (refl id graph) fun after early item _ => early.trans (step after item)

/-- A disposed effect depends on nothing. -/
theorem dispose (graph : Graph Task) (other : EffectId) : GainsNothing id graph (graph.dispose other) := by
  intro effect found
  rw [effect?_dispose] at found
  split at found
  · obtain ⟨older, known, rfl⟩ := Option.map_eq_some_iff.mp found
    exact ⟨older, known, fun _ impossible => by cases impossible⟩
  · exact ⟨effect, found, fun _ listed => listed⟩

/-- Only the active effect subscribes. -/
theorem track {graph : Graph Task} (different : graph.active? ≠ some id) (dependency : Dependency) :
    GainsNothing id graph (graph.track dependency) := by
  apply of_dependencies
  rcases track_eq graph dependency with ⟨same, -⟩ | ⟨reader, active, -, subscribed⟩
  · rw [same]
  · rw [subscribed, effect?_subscribe, if_neg]
    rintro ⟨rfl, -⟩
    exact different active

theorem release (graph : Graph Task) (target : TargetId) :
    GainsNothing id graph (graph.release target) := by
  intro effect found
  rcases effect?_release_or graph target id with same | forgotten
  · exact ⟨effect, same ▸ found, fun _ listed => listed⟩
  · rw [forgotten] at found
    obtain ⟨older, known, rfl⟩ := Option.map_eq_some_iff.mp found
    exact ⟨older, known, fun _ listed => (List.mem_filter.mp listed).1⟩

end GainsNothing

end Graph

/-- These deeds change what nodes show. -/
def Deed.isShow : Deed → Bool
  | .edited _ => true
  | .shown _ _ => true
  | _ => false

namespace World

/-- The end of objects gives no effect a dependency. -/
theorem gainsNothing_collect (id : EffectId) (world : World) :
    Graph.GainsNothing id world.graph world.collect.graph := by
  have disposes : ∀ (current : World) (effect : EffectId),
      Graph.GainsNothing id current.graph (current.disposeEffect effect).graph := by
    intro current effect
    unfold disposeEffect
    split
    · exact .refl id _
    · split
      · exact .refl id _
      · exact .dispose current.graph effect
  have folds : ∀ (effects : List EffectId) (current : World),
      Graph.GainsNothing id current.graph (effects.foldl disposeEffect current).graph := fun effects current =>
    List.foldlRecOn (motive := fun after => Graph.GainsNothing id current.graph after.graph) effects
      disposeEffect (.refl id _) fun after early effect _ => early.trans (disposes after effect)
  have ends : ∀ (current : World) (host : HostId),
      Graph.GainsNothing id current.graph (current.endHost host).graph := by
    intro current host
    rcases endHost_eq current host with ⟨-, same⟩ | ⟨found, -, same⟩
    · rw [same]
      exact .refl id _
    · have first : Graph.GainsNothing id current.graph
          (found.renderEffect.toList.foldl disposeEffect (current.modifyHost host Host.dead)).graph :=
        folds _ (current.modifyHost host Host.dead)
      have second := folds found.bindings.effects
        (found.renderEffect.toList.foldl disposeEffect (current.modifyHost host Host.dead))
      rw [same]
      unfold disposeBindings
      dsimp only
      split <;> exact first.trans second
  exact collect_of_rounds (fun before after => Graph.GainsNothing id before.graph after.graph)
    (fun _ => .refl id _) Graph.GainsNothing.trans
    (fun current => List.foldlRecOn (motive := fun after =>
        Graph.GainsNothing id current.graph after.graph) _ endState (.refl id _)
      fun after early state _ => early.trans (.release after.graph state))
    (fun current => List.foldlRecOn (motive := fun after =>
        Graph.GainsNothing id current.graph after.graph) _ endHost (.refl id _)
      fun after early host _ => early.trans (ends after host)) world

/-- Bindings run from one world to the other. They write no state, and what is guarded stays. -/
structure Gentle (state : TargetId) (before after : World) : Prop where
  later : before.Later after
  holds : ∀ held ∈ before.holds, held ∈ after.holds
  guarded : ∀ guard, before.Guarded state guard → after.Guarded state guard
  store : after.isAlive state = true → after.store? state = before.store? state
  records : ∀ id host, after.host? id = some host → host.alive = true → before.host? id = some host
  deeds : ∃ newer, after.deeds = newer ++ before.deeds ∧ ∀ deed ∈ newer, deed.isShow = true
  spares : before.Spares after
  houses : ∀ host, before.Houses host after
  names : after.names = before.names

/-- A frame disposes nothing. -/
theorem isDisposed_entered (world : World) (frame : Option EffectId) (id : EffectId) :
    (world.entered frame).graph.isDisposed id = world.graph.isDisposed id := by
  cases frame with
  | none => rfl
  | some entered =>
      show Option.any Effect.disposed (Graph.effect? (Graph.countRun _ entered) id) = _
      rw [Graph.effect?_countRun]
      split
      · unfold Graph.isDisposed
        show Option.any Effect.disposed ((world.graph.effect? id).map _) = _
        cases world.graph.effect? id <;> rfl
      · rfl

/-- Bindings release no target by hand. -/
theorem Later.depends_of_shows {state : TargetId} {before after : World} (later : before.Later after)
    (deeds : ∃ newer, after.deeds = newer ++ before.deeds ∧ ∀ deed ∈ newer, deed.isShow = true)
    (lives : after.isAlive state = true) {id : EffectId} {name : String}
    (depends : before.Depends id ⟨state, .named name⟩) : after.Depends id ⟨state, .named name⟩ := by
  apply later.depends depends
  rintro (⟨newer, since, released⟩ | ⟨store, found, gone⟩)
  · obtain ⟨others, appended, shows⟩ := deeds
    have same : newer = others := List.append_cancel_right (since.symm.trans appended)
    have shown := shows _ (same ▸ released)
    cases shown
  · unfold isAlive at lives
    rw [found, Option.any_some, gone] at lives
    cases lives

namespace Gentle

variable {state : TargetId} {first second third : World}

theorem alive (gentle : first.Gentle state second) (lives : second.isAlive state = true) :
    first.isAlive state = true := by
  have same := gentle.store lives
  unfold isAlive at lives ⊢
  rwa [← same]

theorem refl (state : TargetId) (world : World) : world.Gentle state world where
  later := .refl world
  holds _ held := held
  guarded _ guarded := guarded
  store _ := rfl
  records _ _ found _ := found
  deeds := ⟨[], rfl, fun _ impossible => by cases impossible⟩
  spares := .of_same rfl
  houses _ := .of_targets rfl
  names := rfl

theorem trans (early : first.Gentle state second) (late : second.Gentle state third) :
    first.Gentle state third where
  later := early.later.trans late.later
  holds held before := late.holds held (early.holds held before)
  guarded guard guarded := late.guarded guard (early.guarded guard guarded)
  store lives := (late.store lives).trans (early.store (late.alive lives))
  records id host found lives := early.records id host (late.records id host found lives) lives
  deeds := by
    obtain ⟨newer, appended, shows⟩ := early.deeds
    obtain ⟨newest, continued, showsLast⟩ := late.deeds
    refine ⟨newest ++ newer, by rw [continued, appended, List.append_assoc], fun deed member => ?_⟩
    rcases List.mem_append.mp member with last | before
    · exact showsLast deed last
    · exact shows deed before
  spares := early.spares.trans early.later late.spares late.later
  houses host := (early.houses host).trans early.later (late.houses host) late.later
  names := late.names.trans early.names

/-- Changes that end nothing are gentle. -/
theorem of_objects {before after : World} (later : before.Later after)
    (holds : ∀ held ∈ before.holds, held ∈ after.holds) (hosts : after.hosts = before.hosts)
    (targets : after.targets = before.targets)
    (deeds : ∃ newer, after.deeds = newer ++ before.deeds ∧ ∀ deed ∈ newer, deed.isShow = true)
    (spares : before.Spares after) (names : after.names = before.names) :
    before.Gentle state after := by
  have records : ∀ id, after.host? id = before.host? id := by
    intro id
    unfold host?
    rw [hosts]
  have stores : ∀ id, after.store? id = before.store? id := by
    intro id
    unfold store?
    rw [targets]
  refine ⟨later, holds, ?_, fun _ => stores state, fun id _ found _ => records id ▸ found, deeds,
    spares, fun _ => .of_targets targets, names⟩
  intro guard guarded
  constructor
  · have alive := guarded.alive
    unfold isAlive at alive ⊢
    rwa [stores]
  · exact holds guard guarded.held
  · refine guarded.keeps.imp_right ?_
    rintro ⟨id, host, held, found, lives, same⟩
    exact ⟨id, host, held, (records id).trans found, lives, same⟩

theorem of_same {before after : World} (later : before.Later after)
    (holds : after.holds = before.holds) (hosts : after.hosts = before.hosts)
    (targets : after.targets = before.targets) (deeds : after.deeds = before.deeds)
    (graph : after.graph = before.graph) (names : after.names = before.names) :
    before.Gentle state after :=
  of_objects later (fun _ held => holds ▸ held) hosts targets
    ⟨[], deeds, fun _ impossible => by cases impossible⟩ (.of_same graph) names

theorem note (world : World) (notice : Notice) : world.Gentle state (world.note notice) :=
  of_same (later_note world notice) rfl rfl rfl rfl rfl rfl

theorem forest (world : World) {forest : Forest Handler} (grows : world.forest.size ≤ forest.size) :
    world.Gentle state { world with forest } :=
  of_same (.of_forest world forest grows) rfl rfl rfl rfl rfl rfl

theorem attest (world : World) (deed : Deed) (shows : deed.isShow = true) :
    world.Gentle state (world.attest deed) := by
  refine of_objects (.attest world deed) (fun _ held => held) rfl rfl ⟨[deed], rfl, ?_⟩ (.of_same rfl) rfl
  intro other member
  cases List.mem_singleton.mp member
  exact shows

/-- An operation ends with what it held before. -/
theorem close (gentle : first.Gentle state second) :
    first.Gentle state { second with holds := first.holds }.collect := by
  have restored : second.Later { second with holds := first.holds } := later_holds second first.holds
  have sweeps := sweeps_collect { second with holds := first.holds }
  have later := later_collect { second with holds := first.holds }
  constructor
  · exact (gentle.later.trans restored).trans later
  · rw [sweeps.holds]
    exact fun _ held => held
  · intro guard guarded
    have after := gentle.guarded guard guarded
    exact guarded_collect ⟨after.alive, guarded.held, after.keeps⟩
  · intro lives
    exact (sweeps.stores state lives).trans (gentle.store (sweeps.states state lives))
  · intro id host found lives
    exact gentle.records id host (sweeps.records id host found lives) lives
  · rw [sweeps.deeds]
    exact gentle.deeds
  · have spared : first.Spares { second with holds := first.holds } := gentle.spares
    exact spared.trans (gentle.later.trans restored) (spares_collect _) later
  · intro host
    have housed : first.Houses host { second with holds := first.holds } := gentle.houses host
    exact housed.trans (gentle.later.trans restored) (houses_collect host _) later
  · rw [sweeps.names]
    exact gentle.names

/-- A frame is taken off when what runs in it has ended. -/
theorem leave {before after : World} {frame : Option EffectId}
    (allowed : before.graph.Allows (.entered frame))
    (gentle : (before.entered frame).Gentle state after) :
    before.Gentle state { after with graph := after.graph.pop }.collect := by
  have left := gentle.later.leave allowed
  have sweeps := sweeps_collect { after with graph := after.graph.pop }
  have spared : before.Spares { after with graph := after.graph.pop } := by
    intro id below disposed
    have inside := gentle.spares id
      (Nat.lt_of_lt_of_le below (Graph.size_moved before.graph (.entered frame))) disposed
    rw [isDisposed_entered] at inside
    exact inside
  constructor
  · exact left.trans (later_collect _)
  · rw [sweeps.holds]
    exact gentle.holds
  · intro guard guarded
    have inside := gentle.guarded guard ⟨guarded.alive, guarded.held, guarded.keeps⟩
    exact guarded_collect ⟨inside.alive, inside.held, inside.keeps⟩
  · intro lives
    exact (sweeps.stores state lives).trans (gentle.store (sweeps.states state lives))
  · intro id host found lives
    exact gentle.records id host (sweeps.records id host found lives) lives
  · rw [sweeps.deeds]
    exact gentle.deeds
  · exact spared.trans left (spares_collect _) (later_collect _)
  · intro host
    have housed : before.Houses host { after with graph := after.graph.pop } := gentle.houses host
    exact housed.trans left (houses_collect host _) (later_collect _)
  · rw [sweeps.names]
    exact gentle.names

theorem reading (world : World) (source : TargetId) (names : List String) :
    world.Gentle state (world.reading source names) := by
  induction names generalizing world with
  | nil => exact .refl state world
  | cons name rest inductionHypothesis =>
      have step : world.reading source (name :: rest) =
          (world.reading source [name]).reading source rest := rfl
      have spares : world.Spares (world.reading source [name]) := by
        intro id _ disposed
        have same : (world.reading source [name]).graph.isDisposed id = world.graph.isDisposed id :=
          Graph.isDisposed_track world.graph ⟨source, .named name⟩ id
        rw [same] at disposed
        exact Or.inl disposed
      have later : world.Later (world.reading source [name]) :=
        .of_move world (.tracked ⟨source, .named name⟩) trivial (Graph.stack_track _ _)
          fun _ impossible => by cases impossible
      have first : world.Gentle state (world.reading source [name]) :=
        of_objects later (fun _ held => held) rfl rfl ⟨[], rfl, fun _ impossible => by cases impossible⟩
          spares rfl
      rw [step]
      exact first.trans (inductionHypothesis _)

/-- What an effect reads concerns no other effect. -/
theorem gainsNothing_reading {world : World} {id : EffectId} (different : world.graph.active? ≠ some id)
    (source : TargetId) (names : List String) :
    Graph.GainsNothing id world.graph (world.reading source names).graph := by
  induction names generalizing world with
  | nil => exact .refl id _
  | cons name rest inductionHypothesis =>
      have same : (world.reading source [name]).graph.active? = world.graph.active? := by
        unfold Graph.active?
        rw [(reading world source [name] : world.Gentle source _).later.stack]
      exact (Graph.GainsNothing.track different ⟨source, .named name⟩).trans
        (inductionHypothesis (same ▸ different))

theorem reads {source : TargetId} {names : List String} (reads : first.Reads source names second) :
    first.Gentle state second := by
  obtain ⟨parses, notices, same⟩ := reads
  rw [same]
  have recorded : (first.reading source names).Gentle state
      { first.reading source names with parses, notices } :=
    of_same (.of_same rfl rfl rfl rfl (Nat.le_refl _) (List.suffix_refl _)) rfl rfl rfl rfl rfl rfl
  exact (reading first source names).trans recorded

end Gentle

/-- A read is subscribed to by the active effect. -/
theorem depends_track {world : World} (reachable : world.Reachable) {id : EffectId}
    (active : world.graph.active? = some id) {task : Task} (has : world.HasTask id task)
    (dependency : Dependency) :
    ({ world with graph := world.graph.track dependency } : World).Depends id dependency := by
  obtain ⟨moves, path⟩ := reachable
  have agrees := path.recorded.agrees
  obtain ⟨effect, found, -⟩ := has
  show ∃ newer, (world.graph.track dependency).effect? id = some newer ∧ _
  rcases Graph.track_eq world.graph dependency with ⟨same, gone⟩ | ⟨reader, reads, -, subscribed⟩
  · rw [same]
    refine ⟨effect, found, fun lasting => ?_⟩
    have disposed := gone id active
    rw [Graph.isDisposed, found, Option.any_some, lasting] at disposed
    cases disposed
  · cases reads.symm.trans active
    rw [subscribed, Graph.effect?_subscribe, found]
    by_cases known : id ∈ world.graph.subscribersOf dependency
    · rw [if_neg fun both => both.2 known]
      exact ⟨effect, rfl, fun _ => (agrees.mem_dependencies found dependency).mp known⟩
    · rw [if_pos ⟨rfl, known⟩]
      exact ⟨_, rfl, fun _ => List.mem_append_right _ (List.mem_singleton_self _)⟩

/-- Reads release no target. -/
theorem path_reading (world : World) (source : TargetId) (names : List String) :
    ∃ moves, Graph.Path world.graph moves (world.reading source names).graph ∧
      ∀ target, Graph.Move.released target ∉ moves := by
  induction names generalizing world with
  | nil => exact ⟨[], .here, fun _ impossible => by cases impossible⟩
  | cons name rest inductionHypothesis =>
      obtain ⟨moves, path, kept⟩ := inductionHypothesis (world.reading source [name])
      have first : Graph.Path world.graph [.tracked ⟨source, .named name⟩]
          (world.reading source [name]).graph := .single world.graph (.tracked _) trivial
      refine ⟨moves ++ [.tracked ⟨source, .named name⟩], first.append path, fun target member => ?_⟩
      rcases List.mem_append.mp member with late | early
      · exact kept target late
      · cases List.mem_singleton.mp early

/-- All names that are read are subscribed to. -/
theorem depends_reading {id : EffectId} {task : Task} {source : TargetId} (names : List String)
    {world : World} (reachable : world.Reachable) (active : world.graph.active? = some id)
    (has : world.HasTask id task) {name : String} (member : name ∈ names) :
    (world.reading source names).Depends id ⟨source, .named name⟩ := by
  induction names generalizing world with
  | nil => cases member
  | cons first rest inductionHypothesis =>
      have gentle : world.Gentle source (world.reading source [first]) := .reading world source [first]
      have later := gentle.later
      show ((world.reading source [first]).reading source rest).Depends id _
      by_cases here : name ∈ rest
      · apply inductionHypothesis (later.reachable reachable) _ (later.hasTask has) here
        unfold Graph.active? at active ⊢
        rwa [later.stack]
      · have same : name = first := (List.mem_cons.mp member).resolve_right here
        obtain ⟨effect, found, listed⟩ := depends_track reachable active has ⟨source, .named name⟩
        obtain ⟨moves, path, kept⟩ := path_reading (world.reading source [first]) source rest
        have found' : (world.reading source [first]).graph.effect? id = some effect := same ▸ found
        obtain ⟨newer, known, continues⟩ := path.effect? found'
        refine ⟨newer, known, fun lasting =>
          continues.dependencies lasting _ (listed ?_) (kept source)⟩
        cases gone : effect.disposed with
        | false => rfl
        | true =>
            rw [continues.disposed gone] at lasting
            cases lasting

end World

end LiveMarkup
