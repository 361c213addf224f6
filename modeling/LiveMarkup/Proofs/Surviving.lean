import LiveMarkup.Proofs.Cascade

/-
This file says what survives when references are let go: a living state outlasts a collection exactly
if something refers to it afterwards.
-/

namespace LiveMarkup

theorem Subscribers.mem_all_of_remove {subscribers : Subscribers} {key : Key} {effect listed : EffectId}
    (member : listed ∈ (subscribers.remove key effect).all) : listed ∈ subscribers.all := by
  unfold all at member ⊢
  rw [List.mem_append] at member ⊢
  cases key with
  | any => exact member.imp_right fun left => (List.mem_filter.mp left).1
  | named name =>
      unfold remove at member
      dsimp only at member
      split at member
      · refine member.imp_left fun left => ?_
        obtain ⟨entry, known, inside⟩ := List.mem_flatMap.mp left
        exact List.mem_flatMap.mpr ⟨entry, (List.mem_filter.mp known).1, inside⟩
      · refine member.imp_left fun left => ?_
        obtain ⟨entry, known, inside⟩ := List.mem_flatMap.mp left
        rcases Assoc.mem_put known with rfl | old
        · have under : listed ∈ (subscribers.named.get? name).getD [] := (List.mem_filter.mp inside).1
          cases found : subscribers.named.get? name with
          | none =>
              rw [found] at under
              cases under
          | some effects =>
              rw [found] at under
              exact List.mem_flatMap.mpr ⟨(name, effects), Assoc.mem_of_get? found, under⟩
        · exact List.mem_flatMap.mpr ⟨entry, old, inside⟩

namespace Graph

variable {Task : Type}

/-- A graph may lose subscriptions. -/
structure Fades (before after : Graph Task) : Prop where
  stack : after.stack = before.stack
  subscribed : ∀ id ∈ after.subscribed, id ∈ before.subscribed
  captures : ∀ id, after.capturesOf id = before.capturesOf id

namespace Fades

theorem refl (graph : Graph Task) : graph.Fades graph := ⟨rfl, fun _ listed => listed, fun _ => rfl⟩

theorem trans {first second third : Graph Task} (early : first.Fades second)
    (late : second.Fades third) : first.Fades third where
  stack := late.stack.trans early.stack
  subscribed id listed := early.subscribed id (late.subscribed id listed)
  captures id := (late.captures id).trans (early.captures id)

end Fades

theorem mem_subscribed_of_unsubscribe {graph : Graph Task} {id listed : EffectId}
    {dependency : Dependency} (member : listed ∈ (graph.unsubscribe id dependency).subscribed) :
    listed ∈ graph.subscribed := by
  unfold unsubscribe at member
  cases found : graph.table.get? dependency.target with
  | none =>
      rw [found] at member
      exact member
  | some subscribers =>
      rw [found] at member
      obtain ⟨entry, known, inside⟩ := List.mem_flatMap.mp member
      rcases Assoc.mem_put known with rfl | old
      · exact List.mem_flatMap.mpr
          ⟨_, Assoc.mem_of_get? found, Subscribers.mem_all_of_remove inside⟩
      · exact List.mem_flatMap.mpr ⟨entry, old, inside⟩

theorem mem_subscribed_of_unsubscribes {id listed : EffectId} (dependencies : List Dependency)
    (graph : Graph Task) (member : listed ∈ (dependencies.foldl
      (fun current dependency => current.unsubscribe id dependency) graph).subscribed) :
    listed ∈ graph.subscribed := by
  induction dependencies generalizing graph with
  | nil => exact member
  | cons first rest inductionHypothesis =>
      exact mem_subscribed_of_unsubscribe (inductionHypothesis _ member)

theorem fades_dispose (graph : Graph Task) (id : EffectId) : graph.Fades (graph.dispose id) where
  stack := stack_dispose graph id
  subscribed listed member := by
    unfold dispose at member
    split at member
    · exact member
    · split at member
      · exact member
      · exact mem_subscribed_of_unsubscribes _ (graph.modifyEffect id _) member
  captures other := by
    apply capturesOf_congr
    rw [effect?_dispose]
    split
    · cases graph.effect? other <;> rfl
    · rfl

theorem fades_release (graph : Graph Task) (target : TargetId) :
    graph.Fades (graph.release target) where
  stack := stack_release graph target
  subscribed listed member := by
    unfold release at member
    split at member
    · exact member
    · rename_i subscribers _
      have table := table_forget { graph with table := graph.table.erase target } target subscribers.all
      obtain ⟨entry, known, inside⟩ := List.mem_flatMap.mp member
      have erased : entry ∈ graph.table.erase target := by
        rwa [← show _ = graph.table.erase target from table]
      exact List.mem_flatMap.mpr ⟨entry, (List.mem_filter.mp erased).1, inside⟩
  captures id := by
    apply capturesOf_congr
    rcases effect?_release_or graph target id with same | forgotten
    · rw [same]
    · rw [forgotten]
      cases graph.effect? id <;> rfl

end Graph

namespace World

/-- A handle, an operation in progress or a living host refers to a state, or an effect captured it to
which a name, a frame, an operation or a subscription refers. -/
def Refers (world : World) (id : TargetId) : Prop :=
  id ∈ world.stateReferences ∨ ∃ effect ∈ world.effectReferences, id ∈ world.graph.capturesOf effect

theorem mem_statesToEnd_iff (world : World) (id : TargetId) :
    id ∈ world.statesToEnd ↔ world.isAlive id = true ∧ ¬ world.Refers id := by
  rw [mem_statesToEnd, mem_capturedStates]
  exact and_congr_right fun _ => not_or.symm

/-- Something refers to all that lives when nothing is left for a collection. -/
theorem IsCollected.refers {world : World} (collected : world.IsCollected) {id : TargetId}
    (alive : world.isAlive id = true) : world.Refers id := by
  refine Classical.byContradiction fun free => ?_
  have ends := (mem_statesToEnd_iff world id).mpr ⟨alive, free⟩
  rw [collected.2] at ends
  cases ends

/-- What refers to a state afterwards has referred to it before. -/
theorem Refers.of_fades {before after : World} {id : TargetId} (refers : after.Refers id)
    (graph : before.graph.Fades after.graph)
    (handles : ∀ entry ∈ after.names.handles, entry ∈ before.names.handles)
    (effects : ∀ entry ∈ after.names.effects, entry ∈ before.names.effects)
    (holds : ∀ held ∈ after.holds, held ∈ before.holds)
    (hosts : ∀ id host, after.host? id = some host → host.alive = true → before.host? id = some host) :
    before.Refers id := by
  rcases refers with known | ⟨effect, referred, captured⟩
  · left
    unfold stateReferences at known ⊢
    rw [List.mem_append, List.mem_append] at known ⊢
    refine known.imp (Or.imp ?_ ?_) ?_
    · intro handled
      obtain ⟨entry, member, same⟩ := List.mem_map.mp handled
      exact List.mem_map.mpr ⟨entry, handles entry member, same⟩
    · intro held
      obtain ⟨hold, member, same⟩ := List.mem_filterMap.mp held
      exact List.mem_filterMap.mpr ⟨hold, holds hold member, same⟩
    · intro housed
      obtain ⟨host, member, same⟩ := List.mem_map.mp housed
      obtain ⟨listed, alive⟩ := List.mem_filter.mp member
      obtain ⟨place, found⟩ := Array.mem_iff_getElem?.mp (Array.mem_toList_iff.mp listed)
      have old := Array.mem_of_getElem? (hosts place host found alive)
      exact List.mem_map.mpr
        ⟨host, List.mem_filter.mpr ⟨Array.mem_toList_iff.mpr old, alive⟩, same⟩
  · right
    refine ⟨effect, ?_, graph.captures effect ▸ captured⟩
    unfold effectReferences at referred ⊢
    rw [graph.stack] at referred
    simp only [List.mem_append] at referred ⊢
    refine referred.imp (Or.imp (Or.imp_left ?_) ?_) (graph.subscribed effect)
    · intro named
      obtain ⟨entry, member, same⟩ := List.mem_map.mp named
      exact List.mem_map.mpr ⟨entry, effects entry member, same⟩
    · intro held
      obtain ⟨hold, member, same⟩ := List.mem_filterMap.mp held
      exact List.mem_filterMap.mpr ⟨hold, holds hold member, same⟩

/-- Objects may end from one world to the other, but no living state that something refers to in the
end. -/
structure Sheds (chosen : EffectId → Prop) (before after : World) : Prop
    extends World.Cascades chosen before after where
  alive : ∀ id, after.isAlive id = true → before.isAlive id = true
  survives : ∀ id, before.isAlive id = true → after.Refers id → after.isAlive id = true

/-- Nothing refers to a state newly. -/
structure Yields (chosen : EffectId → Prop) (before after : World) : Prop
    extends World.Sheds chosen before after where
  refers : ∀ id, after.Refers id → before.Refers id

theorem Sheds.of_targets {chosen : EffectId → Prop} {before after : World}
    (cascades : before.Cascades chosen after) (targets : after.targets = before.targets) :
    before.Sheds chosen after := by
  have same : ∀ id, after.isAlive id = before.isAlive id := by
    intro id
    unfold isAlive store?
    rw [targets]
  exact ⟨cascades, fun id lives => (same id).symm.trans lives, fun id lives _ => (same id).trans lives⟩

/-- References may come first, and go then. -/
theorem Sheds.trans {chosen : EffectId → Prop} {first second third : World}
    (early : first.Sheds chosen second) (late : second.Yields chosen third) :
    first.Sheds chosen third where
  toCascades := early.toCascades.trans late.toCascades
  alive id lives := early.alive id (late.alive id lives)
  survives id lives refers := late.survives id (early.survives id lives (late.refers id refers)) refers

namespace Yields

variable {chosen : EffectId → Prop} {before after first second third : World}

theorem trans (early : first.Yields chosen second) (late : second.Yields chosen third) :
    first.Yields chosen third where
  toSheds := early.toSheds.trans late
  refers id known := early.refers id (late.refers id known)

/-- All states stay alive. -/
theorem of_cascades (cascades : before.Cascades chosen after) (targets : after.targets = before.targets)
    (graph : before.graph.Fades after.graph)
    (handles : ∀ entry ∈ after.names.handles, entry ∈ before.names.handles)
    (effects : ∀ entry ∈ after.names.effects, entry ∈ before.names.effects)
    (holds : ∀ held ∈ after.holds, held ∈ before.holds) : before.Yields chosen after := by
  exact ⟨.of_targets cascades targets,
    fun _ known => known.of_fades graph handles effects holds cascades.records⟩

theorem of_sweep (cascades : before.Cascades chosen after) (targets : after.targets = before.targets)
    (graph : before.graph.Fades after.graph) (sweeps : before.Sweeps after) :
    before.Yields chosen after :=
  of_cascades cascades targets graph (fun _ member => sweeps.names ▸ member)
    (fun _ member => sweeps.names ▸ member) fun _ member => sweeps.holds ▸ member

/-- Names may go, and an operation may let go of what it held. -/
theorem of_loss {names : Names} {holds : List Hold} (world : World)
    (handles : ∀ entry ∈ names.handles, entry ∈ world.names.handles)
    (effects : ∀ entry ∈ names.effects, entry ∈ world.names.effects)
    (held : ∀ held ∈ holds, held ∈ world.holds) :
    world.Yields chosen { world with names, holds } :=
  of_cascades (.of_same rfl rfl rfl) rfl (.refl world.graph) handles effects held

theorem refl (world : World) : world.Yields chosen world :=
  of_loss world (fun _ member => member) (fun _ member => member) fun _ member => member

end Yields

variable {chosen : EffectId → Prop} {world : World}

theorem fades_disposeEffect (world : World) (id : EffectId) :
    world.graph.Fades (world.disposeEffect id).graph := by
  rw [graph_disposeEffect]
  exact world.graph.fades_dispose id

theorem fades_disposeBindings (world : World) (bindings : Bindings) :
    world.graph.Fades (world.disposeBindings bindings).graph := by
  rw [graph_disposeBindings]
  exact List.foldlRecOn (motive := fun after => world.graph.Fades after.graph) bindings.effects
    disposeEffect (.refl world.graph) fun after early id _ => early.trans (fades_disposeEffect after id)

theorem yields_disposeEffect {id : EffectId} (named : chosen id) (world : World) :
    world.Yields chosen (world.disposeEffect id) :=
  .of_sweep (cascades_disposeEffect named world) (objects_disposeEffect world id).1
    (fades_disposeEffect world id) (sweeps_disposeEffect world id)

theorem yields_disposeBindings {bindings : Bindings} (named : ∀ id ∈ bindings.effects, chosen id)
    (world : World) : world.Yields chosen (world.disposeBindings bindings) :=
  .of_sweep (cascades_disposeBindings named world) (objects_disposeBindings world bindings).1
    (fades_disposeBindings world bindings) (sweeps_disposeBindings world bindings)

/-- The end of a living host takes the reference to its state along. -/
theorem yields_endHost {id : HostId} {record : Host} (found : world.host? id = some record)
    (alive : record.alive = true) : world.Yields chosen (world.endHost id) := by
  refine .of_sweep (cascades_endHost found alive) (objects_endHost world id).1 ?_
    (sweeps_endHost world id)
  obtain ⟨-, same⟩ | ⟨host, -, ends⟩ := endHost_eq world id
  · rw [same]
    exact .refl world.graph
  · rw [ends]
    cases host.renderEffect with
    | none => exact fades_disposeBindings (world.modifyHost id Host.dead) host.bindings
    | some effect =>
        exact (fades_disposeEffect (world.modifyHost id Host.dead) effect).trans
          (fades_disposeBindings _ host.bindings)

theorem yields_foldl_endHost (ids : List HostId) (world : World) (distinct : ids.Nodup)
    (alive : ∀ id ∈ ids, (world.host? id).any Host.alive = true) :
    world.Yields chosen (ids.foldl endHost world) := by
  induction ids generalizing world with
  | nil => exact .refl world
  | cons id rest inductionHypothesis =>
      obtain ⟨free, others⟩ := List.nodup_cons.mp distinct
      obtain ⟨record, found, lives⟩ := (Option.any_eq_true _ _).mp (alive id List.mem_cons_self)
      refine (yields_endHost found lives).trans
        (inductionHypothesis (world.endHost id) others fun other member => ?_)
      have different : id ≠ other := fun same => free (same ▸ member)
      rw [(objects_endHost world id).2, if_neg different]
      exact alive other (List.mem_cons_of_mem _ member)

/-- A state ends that nothing refers to. -/
theorem yields_endState {id : TargetId} (alive : world.isAlive id = true) (free : ¬ world.Refers id) :
    world.Yields chosen (world.endState id) := by
  have refers : ∀ other, (world.endState id).Refers other → world.Refers other := fun _ known =>
    known.of_fades (world.graph.fades_release id) (fun _ member => member) (fun _ member => member)
      (fun _ member => member) fun _ _ found _ => found
  refine ⟨⟨cascades_endState alive, (wanes_endState world id).1.states, ?_⟩, refers⟩
  intro other lives known
  have absent : other ∉ [id] := by
    intro member
    rw [List.mem_singleton.mp member] at known
    exact free (refers id known)
  exact (isAlive_foldl_endState [id] world absent).trans lives

theorem yields_foldl_endState (ids : List TargetId) (world : World) (distinct : ids.Nodup)
    (loose : ∀ id ∈ ids, world.isAlive id = true ∧ ¬ world.Refers id) :
    world.Yields chosen (ids.foldl endState world) := by
  induction ids generalizing world with
  | nil => exact .refl world
  | cons id rest inductionHypothesis =>
      obtain ⟨apart, others⟩ := List.nodup_cons.mp distinct
      obtain ⟨alive, free⟩ := loose id List.mem_cons_self
      have first : world.Yields chosen (world.endState id) := yields_endState alive free
      refine first.trans (inductionHypothesis (world.endState id) others fun other member => ?_)
      obtain ⟨lives, unreferred⟩ := loose other (List.mem_cons_of_mem _ member)
      have absent : other ∉ [id] := fun same => apart (List.mem_singleton.mp same ▸ member)
      exact ⟨(isAlive_foldl_endState [id] world absent).trans lives,
        fun known => unreferred (first.refers other known)⟩

/-- A collection ends whatever nothing refers to. -/
theorem yields_collect (world : World) : world.Yields chosen world.collect := by
  refine collect_of_rounds (Yields chosen) .refl .trans (fun world => ?_) (fun world => ?_) world
  · exact yields_foldl_endState _ world world.nodup_statesToEnd fun id member =>
      (mem_statesToEnd_iff world id).mp member
  · exact yields_foldl_endHost _ world (List.nodup_range.filter _) fun id member =>
      ((Bool.and_eq_true _ _).mp (List.mem_filter.mp member).2).1

/-- A living state outlasts a collection exactly if something refers to it afterwards. -/
theorem isAlive_collect (world : World) (id : TargetId) :
    world.collect.isAlive id = true ↔ world.isAlive id = true ∧ world.collect.Refers id := by
  have yields : world.Yields (fun _ => False) world.collect := yields_collect world
  refine ⟨fun lives => ⟨yields.alive id lives, (isCollected_collect world).refers lives⟩, ?_⟩
  exact fun ⟨lives, refers⟩ => yields.survives id lives refers

end World

end LiveMarkup
