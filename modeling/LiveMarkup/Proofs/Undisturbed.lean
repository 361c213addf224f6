import LiveMarkup.Proofs.Settled
import LiveMarkup.Proofs.Trace

/-
This file says what code that only reads leaves alone. Effects may gain dependencies, and nothing ends.
-/

namespace LiveMarkup

namespace Assoc

variable {K A B : Type} [DecidableEq K]

/-- What the entries list stays listed if the new value lists as much as the old one. -/
theorem mem_flatMap_put (lists : A → List B) {entries : Assoc K A} {key : K} {value : A} {item : B}
    (listed : item ∈ entries.flatMap fun entry => lists entry.2)
    (keeps : ∀ old, get? entries key = some old → item ∈ lists old → item ∈ lists value) :
    item ∈ (put entries key value).flatMap fun entry => lists entry.2 := by
  induction entries with
  | nil => cases listed
  | cons entry rest inductionHypothesis =>
      rw [List.flatMap_cons, List.mem_append] at listed
      by_cases same : entry.1 = key
      · rw [put, if_pos same, List.flatMap_cons, List.mem_append]
        apply listed.imp_left
        exact keeps entry.2 (by simp [get?, same])
      · rw [put, if_neg same, List.flatMap_cons, List.mem_append]
        apply listed.imp_right
        intro later
        apply inductionHypothesis later
        intro old found
        exact keeps old (by simp [get?, same, found])

end Assoc

namespace Subscribers

theorem mem_all_add {subscribers : Subscribers} {id : EffectId} (key : Key) (effect : EffectId)
    (listed : id ∈ subscribers.all) : id ∈ (subscribers.add key effect).all := by
  unfold all at listed ⊢
  rw [List.mem_append] at listed ⊢
  cases key with
  | any => exact listed.imp_right fun member => List.mem_append_left _ member
  | named name =>
      apply listed.imp_left
      intro member
      apply Assoc.mem_flatMap_put (fun effects => effects) member
      intro old found already
      have known : subscribers.under (.named name) = old := by simp [under, found]
      rw [known]
      exact List.mem_append_left _ already

end Subscribers

namespace Effect

variable {Task : Type}

/-- This is what an effect keeps when it runs and reads. -/
def still (effect : Effect Task) : Effect Task := { effect with runs := 0, dependencies := [] }

end Effect

namespace Graph

variable {Task : Type} {first second third : Graph Task}

theorem mem_subscribed_subscribe {graph : Graph Task} {id : EffectId} (effect : EffectId)
    (dependency : Dependency) (subscribed : id ∈ graph.subscribed) :
    id ∈ (graph.subscribe effect dependency).subscribed := by
  by_cases known : effect ∈ graph.subscribersOf dependency
  · rw [subscribe_of_mem known]
    exact subscribed
  · rw [subscribe_of_not_mem known]
    apply Assoc.mem_flatMap_put Subscribers.all subscribed
    intro old found already
    have same : graph.subscribers dependency.target = old := by simp [subscribers, found]
    rw [same]
    exact Subscribers.mem_all_add _ _ already

/-- Effects may run and gain dependencies, and all subscriptions stay. -/
structure Quiet (before after : Graph Task) : Prop where
  stack : after.stack = before.stack
  effects : ∀ id, (after.effect? id).map Effect.still = (before.effect? id).map Effect.still
  subscribed : ∀ id ∈ before.subscribed, id ∈ after.subscribed

/-- All effects but one keep their dependencies. -/
def ReadsOnlyIn (reader : Option EffectId) (before after : Graph Task) : Prop :=
  ∀ id, reader ≠ some id →
    (after.effect? id).map Effect.dependencies = (before.effect? id).map Effect.dependencies

theorem ReadsOnlyIn.trans {reader : Option EffectId} (early : ReadsOnlyIn reader first second)
    (late : ReadsOnlyIn reader second third) : ReadsOnlyIn reader first third :=
  fun id other => (late id other).trans (early id other)

namespace Quiet

theorem refl (graph : Graph Task) : graph.Quiet graph := ⟨rfl, fun _ => rfl, fun _ member => member⟩

theorem trans (early : first.Quiet second) (late : second.Quiet third) : first.Quiet third where
  stack := late.stack.trans early.stack
  effects id := (late.effects id).trans (early.effects id)
  subscribed id member := late.subscribed id (early.subscribed id member)

theorem active? (quiet : first.Quiet second) : second.active? = first.active? := by
  unfold Graph.active?
  rw [quiet.stack]

/-- An effect is the same afterwards, apart from its runs and dependencies. -/
theorem effect? (quiet : first.Quiet second) {id : EffectId} {effect : Effect Task}
    (found : first.effect? id = some effect) :
    ∃ newer, second.effect? id = some newer ∧ newer.task = effect.task ∧
      newer.disposed = effect.disposed ∧ newer.captures = effect.captures := by
  have same := quiet.effects id
  rw [found] at same
  obtain ⟨newer, known, equal⟩ := Option.map_eq_some_iff.mp same
  have task := congrArg Effect.task equal
  have disposed := congrArg Effect.disposed equal
  have captures := congrArg Effect.captures equal
  exact ⟨newer, known, task, disposed, captures⟩

theorem capturesOf (quiet : first.Quiet second) (id : EffectId) :
    second.capturesOf id = first.capturesOf id := by
  have same := congrArg (Option.map Effect.captures) (quiet.effects id)
  rw [Option.map_map, Option.map_map] at same
  exact Graph.capturesOf_congr same

theorem track (graph : Graph Task) (dependency : Dependency) :
    graph.Quiet (graph.track dependency) ∧
      ReadsOnlyIn graph.active? graph (graph.track dependency) := by
  rcases track_eq graph dependency with ⟨same, -⟩ | ⟨reader, active, -, subscribed⟩
  · rw [same]
    exact ⟨.refl graph, fun _ _ => rfl⟩
  · rw [subscribed]
    constructor
    · constructor
      · exact stack_subscribe graph reader dependency
      · intro id
        rw [effect?_subscribe]
        split
        · rw [Option.map_map]
          rfl
        · rfl
      · intro id member
        exact mem_subscribed_subscribe reader dependency member
    · intro id other
      rw [effect?_subscribe, if_neg]
      rintro ⟨same, -⟩
      exact other (same ▸ active)

/-- A run in a frame of its own is quiet if what runs in the frame is quiet. -/
theorem inFrame {graph after : Graph Task} {frame : Option EffectId}
    (quiet : (graph.push frame).Quiet after) : graph.Quiet after.pop where
  stack := by
    show after.stack.tail = graph.stack
    rw [quiet.stack]
    rfl
  effects := quiet.effects
  subscribed := quiet.subscribed

theorem countRun (graph : Graph Task) (id : EffectId) : graph.Quiet (graph.countRun id) where
  stack := rfl
  effects other := by
    rw [effect?_countRun]
    split
    · rw [Option.map_map]
      rfl
    · rfl
  subscribed _ member := member

end Quiet

end Graph

namespace Store

/-- Values may change. Methods, and whether the state is alive, are fixed. -/
def fixed (store : Store) : Store := { store with values := [] }

end Store

namespace World

/-- Names of nodes, nodes, values and records may change. What keeps objects alive stays. -/
structure Undisturbed (before after : World) : Prop where
  graph : before.graph.Quiet after.graph
  hosts : after.hosts = before.hosts
  stores : ∀ id, (after.store? id).map Store.fixed = (before.store? id).map Store.fixed
  states : after.names.states = before.names.states
  handles : after.names.handles = before.names.handles
  effects : after.names.effects = before.names.effects
  hostNames : after.names.hosts = before.names.hosts

namespace Undisturbed

variable {first second third : World}

theorem refl (world : World) : world.Undisturbed world :=
  ⟨.refl world.graph, rfl, fun _ => rfl, rfl, rfl, rfl, rfl⟩

theorem trans (early : first.Undisturbed second) (late : second.Undisturbed third) :
    first.Undisturbed third where
  graph := early.graph.trans late.graph
  hosts := late.hosts.trans early.hosts
  stores id := (late.stores id).trans (early.stores id)
  states := late.states.trans early.states
  handles := late.handles.trans early.handles
  effects := late.effects.trans early.effects
  hostNames := late.hostNames.trans early.hostNames

/-- A quiet graph may stand in a world of which nothing else matters. -/
theorem of_graph {before after : World} (graph : before.graph.Quiet after.graph)
    (hosts : after.hosts = before.hosts) (targets : after.targets = before.targets)
    (names : after.names = before.names) : before.Undisturbed after := by
  refine ⟨graph, hosts, ?_, ?_, ?_, ?_, ?_⟩
  · intro id
    unfold store?
    rw [targets]
  all_goals rw [names]

theorem of_same {before after : World} (graph : after.graph = before.graph)
    (hosts : after.hosts = before.hosts) (targets : after.targets = before.targets)
    (names : after.names = before.names) : before.Undisturbed after :=
  of_graph (graph ▸ .refl before.graph) hosts targets names

theorem isAlive (undisturbed : first.Undisturbed second) (id : TargetId) :
    second.isAlive id = first.isAlive id := by
  have same := congrArg (Option.map Store.alive) (undisturbed.stores id)
  rw [Option.map_map, Option.map_map] at same
  unfold World.isAlive
  cases before : first.store? id <;> cases after : second.store? id <;> rw [before, after] at same
  · cases same
  · cases same
  · exact Option.some.inj same

/-- A settled world stays settled, because nothing loses what keeps it. -/
theorem settled (undisturbed : first.Undisturbed second) (settled : first.Settled) :
    second.Settled where
  hosts id alive := by
    unfold host? at alive
    rw [undisturbed.hosts] at alive
    rw [undisturbed.hostNames]
    exact settled.hosts id alive
  states id alive := by
    rw [undisturbed.isAlive] at alive
    unfold KeepsState
    rw [undisturbed.handles, undisturbed.hosts, undisturbed.effects]
    rcases settled.states id alive with handled | hosted | ⟨effect, referred, captured⟩
    · exact Or.inl handled
    · exact Or.inr (Or.inl hosted)
    · refine Or.inr (Or.inr ⟨effect, ?_, ?_⟩)
      · rw [List.mem_append] at referred ⊢
        exact referred.imp_right (undisturbed.graph.subscribed effect)
      · rw [undisturbed.graph.capturesOf]
        exact captured

/-- No effect is disposed. -/
theorem isDisposed (undisturbed : first.Undisturbed second) (id : EffectId) :
    second.graph.isDisposed id = first.graph.isDisposed id := by
  have same := congrArg (Option.map Effect.disposed) (undisturbed.graph.effects id)
  rw [Option.map_map, Option.map_map] at same
  unfold Graph.isDisposed
  cases before : first.graph.effect? id <;> cases after : second.graph.effect? id <;>
    rw [before, after] at same
  · cases same
  · cases same
  · exact Option.some.inj same

end Undisturbed

/-- All that lives is kept in the second world. Hosts are the same, and what lived in the first one was neither
ended nor disposed since. -/
structure Sustains (before after : World) : Prop where
  settled : after.Settled
  hosts : after.hosts = before.hosts
  states : ∀ id, after.isAlive id = before.isAlive id
  lasting : ∀ id < before.graph.effects.size, after.graph.isDisposed id = before.graph.isDisposed id

/-- Holds and frames make no difference to a settled world. -/
theorem Settled.holds {world : World} (settled : world.Settled) (holds : List Hold) :
    ({ world with holds } : World).Settled := ⟨settled.hosts, settled.states⟩

theorem Settled.graph {world : World} (settled : world.Settled) {graph : Graph Task}
    (quiet : world.graph.Quiet graph) : ({ world with graph } : World).Settled := by
  have undisturbed : world.Undisturbed { world with graph } :=
    .of_graph quiet rfl rfl rfl
  exact undisturbed.settled settled

end World

end LiveMarkup
