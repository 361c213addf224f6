import LiveMarkup.Proofs.Conduct

/-
This file shows that a collection ends all objects that nothing keeps, and that a world in which
everything is kept is left alone by further collections.
-/

namespace LiveMarkup

/-- An effect that keeps its captures holds the same states. -/
theorem Graph.capturesOf_congr {Task : Type} {before after : Graph Task} {id : EffectId}
    (same : (after.effect? id).map Effect.captures = (before.effect? id).map Effect.captures) :
    after.capturesOf id = before.capturesOf id := by
  unfold Graph.capturesOf
  cases old : before.effect? id <;> cases new : after.effect? id <;> rw [old, new] at same
  · cases same
  · cases same
  · exact Option.some.inj same

namespace World

/-- What single rounds bring about, a collection brings about too. -/
theorem collect_of_rounds (relation : World → World → Prop) (refl : ∀ world, relation world world)
    (trans : ∀ {first second third}, relation first second → relation second third →
      relation first third)
    (states : ∀ world, relation world (world.statesToEnd.foldl endState world))
    (hosts : ∀ world, relation world (world.hostsToEnd.foldl endHost world)) (world : World) :
    relation world world.collect := by
  have rounds : ∀ (count : Nat) (current : World), relation current (current.collectRounds count) := by
    intro count
    induction count with
    | zero => exact refl
    | succ count inductionHypothesis =>
        intro current
        unfold collectRounds
        split
        · exact refl current
        · exact trans (states current) (inductionHypothesis _)
        · exact trans (hosts current) (inductionHypothesis _)
  exact rounds _ world

/-- Objects of the second world were alive in the first one, if they are alive. Operations in progress
hold what they held. -/
structure Wanes (before after : World) : Prop where
  holds : after.holds = before.holds
  hostCount : after.hosts.size = before.hosts.size
  targetCount : after.targets.size = before.targets.size
  hosts : ∀ id, (after.host? id).any Host.alive = true → (before.host? id).any Host.alive = true
  states : ∀ id, after.isAlive id = true → before.isAlive id = true

namespace Wanes

variable {first second third : World}

theorem refl (world : World) : world.Wanes world :=
  ⟨rfl, rfl, rfl, fun _ alive => alive, fun _ alive => alive⟩

theorem trans (early : first.Wanes second) (late : second.Wanes third) : first.Wanes third where
  holds := late.holds.trans early.holds
  hostCount := late.hostCount.trans early.hostCount
  targetCount := late.targetCount.trans early.targetCount
  hosts id alive := early.hosts id (late.hosts id alive)
  states id alive := early.states id (late.states id alive)

/-- A change of the graph or of notices ends nothing. -/
theorem of_same {before after : World} (holds : after.holds = before.holds)
    (hosts : after.hosts = before.hosts) (targets : after.targets = before.targets) :
    before.Wanes after where
  holds := holds
  hostCount := by rw [hosts]
  targetCount := by rw [targets]
  hosts id alive := by
    unfold host? at alive ⊢
    rwa [hosts] at alive
  states id alive := by
    unfold isAlive store? at alive ⊢
    rwa [targets] at alive

theorem foldl {A : Type} {change : World → A → World}
    (step : ∀ (world : World) item, world.Wanes (change world item)) (world : World)
    (items : List A) : world.Wanes (items.foldl change world) :=
  List.foldlRecOn items change (refl world) fun after early item _ => early.trans (step after item)

end Wanes

theorem wanes_disposeEffect (world : World) (id : EffectId) :
    world.Wanes (world.disposeEffect id) := by
  unfold disposeEffect
  split
  · exact .refl world
  · split
    · exact .refl world
    · exact .of_same rfl rfl rfl

theorem wanes_disposeBindings (world : World) (bindings : Bindings) :
    world.Wanes (world.disposeBindings bindings) := by
  have disposed := Wanes.foldl wanes_disposeEffect world bindings.effects
  unfold disposeBindings
  dsimp only
  split
  · exact disposed
  · exact disposed.trans (.of_same rfl rfl rfl)

/-- A host that ends is dead afterwards. -/
theorem wanes_endHost (world : World) (id : HostId) :
    world.Wanes (world.endHost id) ∧ ((world.endHost id).host? id).any Host.alive = false := by
  unfold endHost
  cases found : world.host? id with
  | none =>
      refine ⟨.refl world, ?_⟩
      simp [found]
  | some host =>
      have dead : ((world.modifyHost id fun host =>
          { host with alive := false, bindings := {}, renderEffect := none }).host? id).any
            Host.alive = false := by
        rw [host?] at found
        simp [modifyHost, host?, Array.getElem?_modify, found]
      have marked : world.Wanes (world.modifyHost id fun host =>
          { host with alive := false, bindings := {}, renderEffect := none }) := by
        constructor
        · rfl
        · simp [modifyHost]
        · rfl
        · intro other alive
          by_cases same : id = other
          · subst same
            have gone := dead
            rw [alive] at gone
            cases gone
          · simpa [modifyHost, host?, Array.getElem?_modify, same] using alive
        · exact fun _ alive => alive
      have closing : ∀ stilled : World, (world.modifyHost id fun host =>
          { host with alive := false, bindings := {}, renderEffect := none }).Wanes stilled →
          world.Wanes (stilled.disposeBindings host.bindings) ∧
            ((stilled.disposeBindings host.bindings).host? id).any Host.alive = false := by
        intro stilled waned
        have whole := waned.trans (wanes_disposeBindings stilled host.bindings)
        refine ⟨marked.trans whole, ?_⟩
        cases lives : ((stilled.disposeBindings host.bindings).host? id).any Host.alive with
        | false => rfl
        | true =>
            have early := whole.hosts id lives
            rw [dead] at early
            cases early
      dsimp only
      split
      · exact closing _ (wanes_disposeEffect _ _)
      · exact closing _ (.refl _)

/-- A state that ends is dead afterwards. -/
theorem wanes_endState (world : World) (id : TargetId) :
    world.Wanes (world.endState id) ∧ (world.endState id).isAlive id = false := by
  have dead : (world.endState id).isAlive id = false := by
    cases found : world.targets[id]? with
    | none => simp [endState, isAlive, store?, modifyStore, Array.getElem?_modify, found]
    | some target =>
        cases target <;> simp [endState, isAlive, store?, modifyStore, Array.getElem?_modify, found]
  refine ⟨⟨rfl, rfl, by simp [endState, modifyStore], fun _ alive => alive, ?_⟩, dead⟩
  intro other alive
  by_cases same : id = other
  · subst same
    rw [dead] at alive
    cases alive
  · simpa [endState, isAlive, store?, modifyStore, Array.getElem?_modify, same] using alive

/-- These are the objects that a collection may still end. -/
def living (world : World) : Nat :=
  (List.range world.hosts.size).countP (fun id => (world.host? id).any Host.alive) +
    (List.range world.targets.size).countP world.isAlive

theorem countP_lt {A : Type} {fewer more : A → Bool} {items : List A} {item : A}
    (implies : ∀ other, fewer other = true → more other = true) (member : item ∈ items)
    (counted : more item = true) (lost : fewer item = false) :
    items.countP fewer < items.countP more := by
  induction items with
  | nil => cases member
  | cons first rest inductionHypothesis =>
      have others : rest.countP fewer ≤ rest.countP more :=
        List.countP_mono_left fun other _ => implies other
      rw [List.countP_cons, List.countP_cons]
      rcases List.mem_cons.mp member with same | later
      · subst same
        simp [counted, lost]
        omega
      · have shorter := inductionHypothesis later
        by_cases here : fewer first = true
        · simp [here, implies first here]
          omega
        · simp [here]
          omega

/-- Fewer objects live if at least one has died. -/
theorem Wanes.living_lt_of_host {before after : World} (wanes : before.Wanes after) {id : HostId}
    (alive : (before.host? id).any Host.alive = true)
    (dead : (after.host? id).any Host.alive = false) : after.living < before.living := by
  have below : id < before.hosts.size := by
    cases found : before.host? id with
    | none => simp [found] at alive
    | some host => exact (Array.getElem?_eq_some_iff.mp found).1
  have fewer := countP_lt wanes.hosts (List.mem_range.mpr below) alive dead
  have states : (List.range before.targets.size).countP after.isAlive ≤
      (List.range before.targets.size).countP before.isAlive :=
    List.countP_mono_left fun id _ => wanes.states id
  unfold living
  rw [wanes.hostCount, wanes.targetCount]
  omega

theorem Wanes.living_lt_of_state {before after : World} (wanes : before.Wanes after)
    {id : TargetId} (alive : before.isAlive id = true) (dead : after.isAlive id = false) :
    after.living < before.living := by
  have below : id < before.targets.size := by
    by_cases within : id < before.targets.size
    · exact within
    · simp [isAlive, store?, Array.getElem?_eq_none (Nat.le_of_not_lt within)] at alive
  have fewer := countP_lt wanes.states (List.mem_range.mpr below) alive dead
  have hosts : (List.range before.hosts.size).countP (fun id => (after.host? id).any Host.alive) ≤
      (List.range before.hosts.size).countP (fun id => (before.host? id).any Host.alive) :=
    List.countP_mono_left fun id _ => wanes.hosts id
  unfold living
  rw [wanes.hostCount, wanes.targetCount]
  omega

/-- A round that ends some objects leaves fewer of them alive. -/
theorem living_foldl_endHost {world : World} {id : HostId} {rest : List HostId}
    (listed : world.hostsToEnd = id :: rest) :
    ((id :: rest).foldl endHost world).living < world.living := by
  have member : id ∈ world.hostsToEnd := listed ▸ List.mem_cons_self
  have alive : (world.host? id).any Host.alive = true := by
    have chosen := (List.mem_filter.mp member).2
    rw [Bool.and_eq_true] at chosen
    exact chosen.1
  obtain ⟨first, dead⟩ := wanes_endHost world id
  have others := Wanes.foldl (fun world id => (wanes_endHost world id).1) (world.endHost id) rest
  apply (first.trans others).living_lt_of_host alive
  cases lives : ((rest.foldl endHost (world.endHost id)).host? id).any Host.alive with
  | false => rfl
  | true =>
      have early := others.hosts id lives
      rw [dead] at early
      cases early

theorem living_foldl_endState {world : World} {id : TargetId} {rest : List TargetId}
    (listed : world.statesToEnd = id :: rest) :
    ((id :: rest).foldl endState world).living < world.living := by
  have member : id ∈ world.statesToEnd := listed ▸ List.mem_cons_self
  have alive := ((mem_statesToEnd world id).mp member).1
  obtain ⟨first, dead⟩ := wanes_endState world id
  have others := Wanes.foldl (fun world id => (wanes_endState world id).1) (world.endState id) rest
  apply (first.trans others).living_lt_of_state alive
  cases lives : (rest.foldl endState (world.endState id)).isAlive id with
  | false => rfl
  | true =>
      have early := others.states id lives
      rw [dead] at early
      cases early

/-- Nothing is left for a collection. -/
def IsCollected (world : World) : Prop := world.hostsToEnd = [] ∧ world.statesToEnd = []

theorem isCollected_collectRounds (rounds : Nat) (world : World) (enough : world.living < rounds) :
    (world.collectRounds rounds).IsCollected := by
  induction rounds generalizing world with
  | zero => omega
  | succ rounds inductionHypothesis =>
      unfold collectRounds
      cases hosts : world.hostsToEnd with
      | nil =>
          cases states : world.statesToEnd with
          | nil => exact ⟨hosts, states⟩
          | cons id rest =>
              have fewer := living_foldl_endState states
              exact inductionHypothesis _ (by omega)
      | cons id rest =>
          have fewer := living_foldl_endHost hosts
          exact inductionHypothesis _ (by omega)

/-- A collection has enough rounds. -/
theorem isCollected_collect (world : World) : world.collect.IsCollected := by
  apply isCollected_collectRounds
  have hosts := List.countP_le_length (p := fun id => (world.host? id).any Host.alive)
    (l := List.range world.hosts.size)
  have states := List.countP_le_length (p := world.isAlive) (l := List.range world.targets.size)
  rw [List.length_range] at hosts states
  unfold living
  omega

theorem wanes_collect (world : World) : world.Wanes world.collect :=
  collect_of_rounds Wanes .refl .trans
    (fun world => .foldl (fun world id => (wanes_endState world id).1) world _)
    (fun world => .foldl (fun world id => (wanes_endHost world id).1) world _) world

/-- A state is kept by a handle, by a living host, or by an effect that has a name or subscribes. -/
def KeepsState (world : World) (id : TargetId) : Prop :=
  id ∈ world.names.handles.map Prod.snd ∨
    id ∈ (world.hosts.toList.filter Host.alive).map Host.state ∨
    ∃ effect ∈ world.names.effects.map Prod.snd ++ world.graph.subscribed,
      id ∈ world.graph.capturesOf effect

/-- All that lives is kept, whatever operations are in progress. -/
structure Settled (world : World) : Prop where
  hosts : ∀ id, (world.host? id).any Host.alive = true →
    ∃ entry ∈ world.names.hosts, entry.2 = id
  states : ∀ id, world.isAlive id = true → world.KeepsState id

theorem hostsToEnd_eq_nil {world : World} (settled : world.Settled) : world.hostsToEnd = [] := by
  apply List.filter_eq_nil_iff.mpr
  intro id _ both
  rw [Bool.and_eq_true] at both
  have named : world.holdsHost id = true := by
    obtain ⟨entry, member, same⟩ := settled.hosts id both.1
    unfold holdsHost
    rw [Bool.or_eq_true]
    exact Or.inl (List.any_eq_true.mpr ⟨entry, member, by simpa using same⟩)
  simp [named] at both

theorem statesToEnd_eq_nil {world : World} (settled : world.Settled) : world.statesToEnd = [] := by
  apply List.eq_nil_iff_forall_not_mem.mpr
  intro id member
  obtain ⟨alive, free, loose⟩ := (mem_statesToEnd world id).mp member
  rcases settled.states id alive with handled | hosted | ⟨effect, referred, captured⟩
  · exact free (List.mem_append_left _ (List.mem_append_left _ handled))
  · exact free (List.mem_append_right _ hosted)
  · apply loose
    rw [mem_capturedStates]
    refine ⟨effect, ?_, captured⟩
    unfold effectReferences
    rcases List.mem_append.mp referred with named | subscribed
    · simp [named]
    · simp [subscribed]

/-- A settled world is left alone by collections. -/
theorem collect_eq_self {world : World} (settled : world.Settled) : world.collect = world := by
  unfold collect collectRounds
  rw [hostsToEnd_eq_nil settled, statesToEnd_eq_nil settled]

/-- A collected world in which nothing is in progress is settled. -/
theorem settled_of_isCollected {world : World} (collected : world.IsCollected)
    (holds : world.holds = []) (stack : world.graph.stack = []) : world.Settled where
  hosts id alive := by
    have below : id < world.hosts.size := by
      cases found : world.host? id with
      | none => simp [found] at alive
      | some host => exact (Array.getElem?_eq_some_iff.mp found).1
    have kept := List.filter_eq_nil_iff.mp collected.1 id (List.mem_range.mpr below)
    simpa [alive, holdsHost, holds] using kept
  states id alive := by
    by_cases kept : world.KeepsState id
    · exact kept
    · have ends : id ∈ world.statesToEnd := by
        rw [mem_statesToEnd]
        refine ⟨alive, ?_, ?_⟩
        · intro referred
          apply kept
          unfold stateReferences at referred
          rw [holds] at referred
          rcases List.mem_append.mp referred with handled | hosted
          · exact Or.inl (by simpa using handled)
          · exact Or.inr (Or.inl hosted)
        · intro captured
          obtain ⟨effect, referred, captures⟩ := (mem_capturedStates world id).mp captured
          unfold effectReferences at referred
          rw [holds, stack] at referred
          exact kept (Or.inr (Or.inr ⟨effect, by simpa using referred, captures⟩))
      rw [collected.2] at ends
      cases ends

end World

end LiveMarkup
