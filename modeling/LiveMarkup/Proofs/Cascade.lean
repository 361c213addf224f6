import LiveMarkup.Proofs.Consistency
import LiveMarkup.Proofs.Finality
import LiveMarkup.Proofs.Sweeping

/-
This file follows the end of objects. A state that ends leaves the table, and may free effects that kept
other states alive. The subscriptions to all other targets stay, except those of disposed effects.
-/

namespace LiveMarkup

namespace Graph

variable {Task : Type} {graph : Graph Task} {target : TargetId}

/-- The table mentions a target, or the record of an effect does. -/
def Mentions (graph : Graph Task) (target : TargetId) : Prop :=
  graph.hasTarget target = true ∨ ∃ id effect dependency, graph.effect? id = some effect ∧
    dependency ∈ effect.dependencies ∧ dependency.target = target

theorem hasTarget_modifyEffect (graph : Graph Task) (id : EffectId)
    (change : Effect Task → Effect Task) (target : TargetId) :
    (graph.modifyEffect id change).hasTarget target = graph.hasTarget target := rfl

theorem hasTarget_put_of_ne (graph : Graph Task) {changed : TargetId} (subscribers : Subscribers)
    (different : target ≠ changed) :
    ({ graph with table := graph.table.put changed subscribers } : Graph Task).hasTarget target =
      graph.hasTarget target := by
  unfold hasTarget Assoc.contains
  rw [Assoc.get?_put_of_ne _ _ different]

/-- A read makes an entry for its own target only. -/
theorem hasTarget_track_of_ne (graph : Graph Task) {dependency : Dependency}
    (different : target ≠ dependency.target) :
    (graph.track dependency).hasTarget target = graph.hasTarget target := by
  rcases track_eq graph dependency with ⟨same, -⟩ | ⟨id, -, -, subscribed⟩
  · rw [same]
  · rw [subscribed]
    by_cases known : id ∈ graph.subscribersOf dependency
    · rw [subscribe_of_mem known]
    · rw [subscribe_of_not_mem known, hasTarget_modifyEffect, hasTarget_put_of_ne graph _ different]

/-- An entry that becomes empty stays. -/
theorem hasTarget_unsubscribe (graph : Graph Task) (id : EffectId) (dependency : Dependency)
    (target : TargetId) :
    (graph.unsubscribe id dependency).hasTarget target = graph.hasTarget target := by
  unfold unsubscribe
  cases found : graph.table.get? dependency.target with
  | none => rfl
  | some subscribers =>
      by_cases same : target = dependency.target
      · subst same
        simp [hasTarget, Assoc.contains, found]
      · exact hasTarget_put_of_ne graph _ same

theorem hasTarget_dispose (graph : Graph Task) (id : EffectId) (target : TargetId) :
    (graph.dispose id).hasTarget target = graph.hasTarget target := by
  have unsubscribes : ∀ (dependencies : List Dependency) (current : Graph Task),
      (dependencies.foldl (fun current dependency => current.unsubscribe id dependency)
        current).hasTarget target = current.hasTarget target := fun dependencies current =>
    List.foldlRecOn (motive := fun after : Graph Task => after.hasTarget target = current.hasTarget target)
      dependencies (fun current dependency => current.unsubscribe id dependency) rfl
      fun after early dependency _ => (hasTarget_unsubscribe after id dependency target).trans early
  unfold dispose
  split
  · rfl
  · split
    · rfl
    · rw [unsubscribes, hasTarget_modifyEffect]

theorem hasTarget_release (graph : Graph Task) (released target : TargetId) :
    (graph.release released).hasTarget target =
      if target = released then false else graph.hasTarget target := by
  have erased : (graph.release released).table.get? target =
      (graph.table.erase released).get? target := by
    unfold release
    cases found : graph.table.get? released with
    | none =>
        by_cases same : target = released
        · rw [same, Assoc.get?_erase]
          exact found
        · exact (Assoc.get?_erase_of_ne _ same).symm
    | some subscribers =>
        exact congrArg (Assoc.get? · target) (table_forget
          { graph with table := graph.table.erase released } released subscribers.all)
  unfold hasTarget Assoc.contains
  rw [erased]
  split
  · rename_i same
    rw [same, Assoc.get?_erase]
    rfl
  · rename_i different
    rw [Assoc.get?_erase_of_ne _ different]

namespace Agrees

variable (agrees : graph.Agrees)
include agrees

/-- What the records mention, the table has an entry for. -/
theorem mentions_iff (target : TargetId) : graph.Mentions target ↔ graph.hasTarget target = true := by
  refine ⟨?_, Or.inl⟩
  rintro (known | ⟨id, effect, dependency, found, member, rfl⟩)
  · exact known
  · have listed := (agrees.listed id dependency).mpr ⟨effect, found, member⟩
    unfold subscribersOf Graph.subscribers at listed
    unfold hasTarget Assoc.contains
    cases entry : graph.table.get? dependency.target with
    | none =>
        rw [entry] at listed
        rw [show ((none : Option Subscribers).getD {}).under dependency.key = [] from
          Subscribers.under_empty _] at listed
        cases listed
    | some subscribers => rfl

/-- Whoever subscribes exists and is not disposed. -/
theorem lasting_of_subscribed {id : EffectId} {dependency : Dependency}
    (listed : id ∈ graph.subscribersOf dependency) : graph.isDisposed id = false := by
  obtain ⟨effect, found, member⟩ := (agrees.listed id dependency).mp listed
  unfold isDisposed
  rw [found]
  cases disposed : effect.disposed with
  | false => exact disposed
  | true =>
      rw [agrees.disposed id effect found disposed] at member
      cases member

/-- A disposed effect leaves the sets of its dependencies, and no others. -/
theorem subscribersOf_dispose (id : EffectId) (dependency : Dependency) :
    (graph.dispose id).subscribersOf dependency =
      (graph.subscribersOf dependency).filter (· ≠ id) := by
  have absent : id ∉ graph.subscribersOf dependency →
      graph.subscribersOf dependency = (graph.subscribersOf dependency).filter (· ≠ id) := by
    intro free
    refine (List.filter_eq_self.mpr fun other member => ?_).symm
    have different : other ≠ id := fun same => free (same ▸ member)
    simpa using different
  unfold Graph.dispose
  cases found : graph.effect? id with
  | none =>
      refine absent fun listed => ?_
      obtain ⟨effect, known, -⟩ := (agrees.listed id dependency).mp listed
      cases found.symm.trans known
  | some effect =>
      dsimp only
      split
      · rename_i disposed
        refine absent fun listed => ?_
        have lasts := agrees.lasting_of_subscribed listed
        unfold isDisposed at lasts
        rw [found] at lasts
        exact Bool.false_ne_true (lasts.symm.trans disposed)
      · rw [subscribersOf_unsubscribes, subscribersOf_modifyEffect]
        split
        · rfl
        · rename_i free
          exact absent fun listed => free ((agrees.mem_dependencies found dependency).mp listed)

end Agrees

end Graph

namespace World

/-- An effect belonged to a host that has ended in the meantime. -/
def EndsWithHost (before after : World) (id : EffectId) : Prop :=
  ∃ host record, before.host? host = some record ∧ record.alive = true ∧
    (∀ newer, after.host? host = some newer → newer.alive = false) ∧
    (id ∈ record.bindings.effects ∨ record.renderEffect = some id)

/-- States and hosts end from one world to the other, and some chosen effects are disposed. What ends
leaves the table, and subscriptions to other targets end only with their effects. -/
structure Cascades (chosen : EffectId → Prop) (before after : World) : Prop where
  reachable : before.Reachable → after.Reachable
  known : ∀ id, (after.store? id).isSome = (before.store? id).isSome
  ended : ∀ id, before.hasEnded id = true → after.hasEnded id = true
  table : ∀ id, before.graph.hasTarget id = false → after.graph.hasTarget id = false
  records : ∀ id host, after.host? id = some host → host.alive = true → before.host? id = some host
  remains : ∀ id, before.graph.isDisposed id = true → after.graph.isDisposed id = true
  released : ∀ id, after.hasEnded id = true →
    before.hasEnded id = true ∨ after.graph.hasTarget id = false
  disposed : ∀ id, after.graph.isDisposed id = true →
    before.graph.isDisposed id = true ∨ chosen id ∨ before.EndsWithHost after id
  kept : before.Reachable → ∀ dependency,
    (after.hasEnded dependency.target = true → before.hasEnded dependency.target = true) →
      after.graph.subscribersOf dependency =
        (before.graph.subscribersOf dependency).filter fun id => !after.graph.isDisposed id

theorem subscribers_lasting {world : World} (reachable : world.Reachable) (dependency : Dependency) :
    world.graph.subscribersOf dependency =
      (world.graph.subscribersOf dependency).filter fun id => !world.graph.isDisposed id := by
  obtain ⟨moves, path⟩ := reachable
  refine (List.filter_eq_self.mpr fun id member => ?_).symm
  simp [path.recorded.agrees.lasting_of_subscribed member]

namespace Cascades

variable {chosen : EffectId → Prop} {first second third : World}

theorem trans (early : first.Cascades chosen second) (late : second.Cascades chosen third) :
    first.Cascades chosen third where
  reachable reachable := late.reachable (early.reachable reachable)
  known id := (late.known id).trans (early.known id)
  ended id gone := late.ended id (early.ended id gone)
  table id free := late.table id (early.table id free)
  records id host found alive := early.records id host (late.records id host found alive) alive
  remains id gone := late.remains id (early.remains id gone)
  released id gone := by
    rcases late.released id gone with before | free
    · exact (early.released id before).imp_right (late.table id)
    · exact Or.inr free
  disposed id gone := by
    rcases late.disposed id gone with before | named | later
    · rcases early.disposed id before with already | named | earlier
      · exact Or.inl already
      · exact Or.inr (Or.inl named)
      · obtain ⟨host, record, found, alive, dead, owns⟩ := earlier
        refine Or.inr (Or.inr ⟨host, record, found, alive, fun newest reached => ?_, owns⟩)
        cases lives : newest.alive with
        | false => rfl
        | true => exact lives.symm.trans (dead newest (late.records host newest reached lives))
    · exact Or.inr (Or.inl named)
    · obtain ⟨host, record, found, alive, dead, owns⟩ := later
      exact Or.inr (Or.inr ⟨host, record, early.records host record found alive, alive, dead, owns⟩)
  kept reachable dependency stays := by
    have earlier : second.hasEnded dependency.target = true →
        first.hasEnded dependency.target = true := fun gone => stays (late.ended _ gone)
    have later : third.hasEnded dependency.target = true →
        second.hasEnded dependency.target = true := fun gone => early.ended _ (stays gone)
    rw [late.kept (early.reachable reachable) dependency later, early.kept reachable dependency earlier,
      List.filter_filter]
    refine List.filter_congr fun id _ => ?_
    cases gone : second.graph.isDisposed id with
    | false => simp
    | true => simp [late.remains id gone]

/-- Nothing but effects ends if targets and hosts stay. -/
theorem of_objects {before after : World} (targets : after.targets = before.targets)
    (hosts : after.hosts = before.hosts) (reachable : before.Reachable → after.Reachable)
    (table : ∀ id, before.graph.hasTarget id = false → after.graph.hasTarget id = false)
    (remains : ∀ id, before.graph.isDisposed id = true → after.graph.isDisposed id = true)
    (disposed : ∀ id, after.graph.isDisposed id = true → before.graph.isDisposed id = true ∨ chosen id)
    (kept : before.Reachable → ∀ dependency, after.graph.subscribersOf dependency =
      (before.graph.subscribersOf dependency).filter fun id => !after.graph.isDisposed id) :
    before.Cascades chosen after where
  reachable := reachable
  known id := by
    unfold store?
    rw [targets]
  ended id gone := by
    unfold hasEnded store? at gone ⊢
    rwa [targets]
  table := table
  records id host found _ := by
    unfold host? at found ⊢
    rwa [hosts] at found
  remains := remains
  released id gone := by
    unfold hasEnded store? at gone ⊢
    rw [targets] at gone
    exact Or.inl gone
  disposed id gone := (disposed id gone).imp_right Or.inl
  kept reachable dependency _ := kept reachable dependency

theorem of_same {before after : World} (graph : after.graph = before.graph)
    (targets : after.targets = before.targets) (hosts : after.hosts = before.hosts) :
    before.Cascades chosen after := by
  refine of_objects targets hosts ?_ ?_ ?_ ?_ ?_
  · unfold Reachable
    rw [graph]
    exact fun reachable => reachable
  · exact fun _ free => graph ▸ free
  · exact fun _ gone => graph ▸ gone
  · exact fun _ gone => Or.inl (graph ▸ gone)
  · intro reachable dependency
    rw [graph]
    exact subscribers_lasting reachable dependency

theorem refl (world : World) : world.Cascades chosen world := of_same rfl rfl rfl

theorem foldl {A : Type} {change : World → A → World} {items : List A}
    (step : ∀ item ∈ items, ∀ world : World, world.Cascades chosen (change world item)) (world : World) :
    world.Cascades chosen (items.foldl change world) :=
  List.foldlRecOn items change (refl world) fun after early item member =>
    early.trans (step item member after)

/-- What was chosen may have belonged to a host that ended. -/
theorem mono {more : EffectId → Prop} (cascades : first.Cascades chosen second)
    (implies : ∀ id, chosen id → more id ∨ first.EndsWithHost second id) :
    first.Cascades more second where
  reachable := cascades.reachable
  known := cascades.known
  ended := cascades.ended
  table := cascades.table
  records := cascades.records
  remains := cascades.remains
  released := cascades.released
  disposed id gone := by
    rcases cascades.disposed id gone with already | named | ended
    · exact Or.inl already
    · exact Or.inr (implies id named)
    · exact Or.inr (Or.inr ended)
  kept := cascades.kept

end Cascades

variable {chosen : EffectId → Prop} {world : World}

/-! Disposals. -/

theorem cascades_disposeEffect {id : EffectId} (named : chosen id) (world : World) :
    world.Cascades chosen (world.disposeEffect id) := by
  obtain ⟨targets, hosts⟩ := objects_disposeEffect world id
  have graph := graph_disposeEffect world id
  have itself : ∀ effect, world.graph.effect? id = some effect →
      (world.graph.dispose id).isDisposed id = true := by
    intro effect found
    obtain ⟨gone, known, disposed, -⟩ := world.graph.effect?_dispose_self found
    simp [Graph.isDisposed, known, disposed]
  refine .of_objects targets hosts (later_disposeEffect world id).reachable ?_ ?_ ?_ ?_
  · intro target free
    rw [graph, Graph.hasTarget_dispose, free]
  · intro other gone
    rw [graph]
    by_cases same : id = other
    · subst same
      cases found : world.graph.effect? id with
      | none => simp [Graph.isDisposed, found] at gone
      | some effect => exact itself effect found
    · rw [Graph.isDisposed_dispose_of_ne same, gone]
  · intro other gone
    by_cases same : id = other
    · exact Or.inr (same ▸ named)
    · rw [graph, Graph.isDisposed_dispose_of_ne same] at gone
      exact Or.inl gone
  · rintro ⟨moves, path⟩ dependency
    have agrees := path.recorded.agrees
    rw [graph, agrees.subscribersOf_dispose]
    refine List.filter_congr fun other member => ?_
    by_cases same : id = other
    · subst same
      obtain ⟨effect, found, -⟩ := (agrees.listed id dependency).mp member
      simp [itself effect found]
    · rw [Graph.isDisposed_dispose_of_ne same, agrees.lasting_of_subscribed member]
      simpa using Ne.symm same

theorem cascades_disposeBindings {bindings : Bindings} (named : ∀ id ∈ bindings.effects, chosen id)
    (world : World) : world.Cascades chosen (world.disposeBindings bindings) := by
  have disposed := Cascades.foldl (fun id member => cascades_disposeEffect (named id member)) world
  unfold disposeBindings
  dsimp only
  split
  · exact disposed
  · exact disposed.trans (.of_same rfl rfl rfl)

/-! Ends. -/

theorem hasEnded_iff (world : World) (id : TargetId) :
    world.hasEnded id = true ↔ (world.store? id).isSome = true ∧ world.isAlive id = false := by
  unfold hasEnded isAlive
  cases world.store? id <;> simp

theorem hasEnded_eq_false {id : TargetId} (alive : world.isAlive id = true) : world.hasEnded id = false := by
  unfold isAlive at alive
  unfold hasEnded
  cases found : world.store? id with
  | none => rfl
  | some store =>
      rw [found] at alive
      have lives : store.alive = true := alive
      simp [lives]

/-- A state that ends takes its entry along, and nothing else. -/
theorem cascades_endState {id : TargetId} (alive : world.isAlive id = true) :
    world.Cascades chosen (world.endState id) := by
  have store : ∀ other, (world.endState id).store? other = if id = other then
      (world.store? other).map fun store => { store with alive := false } else world.store? other :=
    fun other => store?_modifyStore world id other _
  have elsewhere : ∀ other, id ≠ other →
      (world.endState id).hasEnded other = world.hasEnded other := by
    intro other different
    unfold hasEnded
    rw [store, if_neg different]
  refine ⟨?_, ?_, ?_, ?_, fun _ _ found _ => found, ?_, ?_, ?_, ?_⟩
  · rintro ⟨moves, path⟩
    exact ⟨_, path.step (.released id) trivial⟩
  · intro other
    rw [store]
    split
    · exact Option.isSome_map
    · rfl
  · intro other gone
    by_cases same : id = other
    · subst same
      rw [hasEnded_eq_false alive] at gone
      cases gone
    · rwa [elsewhere other same]
  · intro target free
    show (world.graph.release id).hasTarget target = false
    rw [Graph.hasTarget_release, free]
    exact ite_self _
  · intro other gone
    exact (Graph.isDisposed_release _ id other).trans gone
  · intro other gone
    by_cases same : id = other
    · refine Or.inr ((Graph.hasTarget_release _ id other).trans (if_pos same.symm))
    · rw [elsewhere other same] at gone
      exact Or.inl gone
  · intro other gone
    exact Or.inl ((Graph.isDisposed_release _ id other).symm.trans gone)
  · intro reachable dependency stays
    have different : dependency.target ≠ id := by
      intro same
      have gone : (world.endState id).hasEnded id = true := by
        obtain ⟨found, known, -⟩ := (Option.any_eq_true _ _).mp alive
        unfold hasEnded
        rw [store, if_pos rfl, known]
        rfl
      have before := stays (same ▸ gone)
      rw [same, hasEnded_eq_false alive] at before
      cases before
    have kept : (world.endState id).graph.subscribersOf dependency =
        world.graph.subscribersOf dependency :=
      (Graph.subscribersOf_release _ id dependency).trans (if_neg different)
    rw [kept, subscribers_lasting reachable dependency, List.filter_filter]
    refine List.filter_congr fun other _ => ?_
    rw [show (world.endState id).graph.isDisposed other = world.graph.isDisposed other from
      Graph.isDisposed_release _ id other, Bool.and_self]

/-- The end of a living host disposes the effects that it has. -/
theorem cascades_endHost {id : HostId} {record : Host} (found : world.host? id = some record)
    (alive : record.alive = true) : world.Cascades chosen (world.endHost id) := by
  obtain ⟨absent, -⟩ | ⟨host, known, ends⟩ := endHost_eq world id
  · cases absent.symm.trans found
  · cases known.symm.trans found
    have dead : ∀ newer, (world.endHost id).host? id = some newer → newer.alive = false := by
      intro newer reached
      rw [(objects_endHost world id).2, if_pos rfl, found] at reached
      cases reached
      rfl
    let belongs : EffectId → Prop := fun effect =>
      effect ∈ record.bindings.effects ∨ record.renderEffect = some effect
    have marked : world.Cascades belongs (world.modifyHost id Host.dead) := by
      refine ⟨fun reachable => reachable, fun _ => rfl, fun _ gone => gone, fun _ free => free, ?_,
        fun _ gone => gone, fun _ gone => Or.inl gone, fun _ gone => Or.inl gone,
        fun reachable dependency _ => subscribers_lasting reachable dependency⟩
      intro other host looked lives
      rw [host?_modifyHost] at looked
      split at looked
      · obtain ⟨old, -, same⟩ := Option.map_eq_some_iff.mp looked
        rw [← same] at lives
        cases lives
      · exact looked
    have stilled : (world.modifyHost id Host.dead).Cascades belongs
        (record.renderEffect.toList.foldl disposeEffect (world.modifyHost id Host.dead)) :=
      Cascades.foldl (fun effect member =>
        cascades_disposeEffect (Or.inr (Option.mem_toList.mp member))) _
    have whole : world.Cascades belongs (world.endHost id) := by
      rw [ends]
      exact (marked.trans stilled).trans (cascades_disposeBindings (fun _ member => Or.inl member) _)
    exact whole.mono fun effect owned => Or.inr ⟨id, record, found, alive, dead, owned⟩

theorem nodup_statesToEnd (world : World) : world.statesToEnd.Nodup := by
  unfold statesToEnd
  dsimp only
  split
  · exact List.nodup_nil
  · exact (List.nodup_range.filter _).filter _

end World

end LiveMarkup
