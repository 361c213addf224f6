import LiveMarkup.Proofs.Displays
import LiveMarkup.Proofs.Refreshing

/-
This file says what happens when a binding registers an effect: the effect is new, runs once, and shows
what the store says.
-/

namespace LiveMarkup

open Live

namespace World

/-- A state with this store is there to be bound to, and the operation in progress keeps it. -/
structure Offers (state : TargetId) (store : Store) (guard : Hold) (world : World) : Prop where
  reachable : world.Reachable
  sound : world.Sound
  found : world.store? state = some store
  guarded : world.Guarded state guard

/-- Nothing refers to an effect yet, so that no collection disposes it. -/
structure Endures (world : World) (id : EffectId) : Prop where
  known : id < world.graph.effects.size
  lasting : world.graph.isDisposed id = false
  free : ∀ place, ¬ world.RefersAt id place

variable {state : TargetId} {store : Store} {guard : Hold} {world before after : World} {id : EffectId}

theorem Offers.alive (offers : world.Offers state store guard) : store.alive = true := by
  have lives := offers.guarded.alive
  unfold isAlive at lives
  rwa [offers.found] at lives

/-- Bindings write nothing, so the next binding is offered the same store. -/
theorem Offers.later (offers : before.Offers state store guard) (gentle : before.Gentle state after) :
    after.Offers state store guard where
  reachable := gentle.later.reachable offers.reachable
  sound := gentle.later.sound offers.sound
  found := by
    have kept := gentle.guarded guard offers.guarded
    exact (gentle.store kept.alive).trans offers.found
  guarded := gentle.guarded guard offers.guarded

theorem Endures.later (endures : before.Endures id) (gentle : before.Gentle state after) :
    after.Endures id where
  known := Nat.lt_of_lt_of_le endures.known gentle.later.effects
  lasting := by
    cases gone : after.graph.isDisposed id with
    | false => rfl
    | true =>
        rcases gentle.spares id endures.known gone with disposed | ⟨place, refers, -⟩
        · exact absurd (endures.lasting.symm.trans disposed) Bool.false_ne_true
        · exact absurd refers (endures.free place)
  free place refers := endures.free place (gentle.later.inherits id place endures.known refers)

/-- Only effects that exist are running. -/
theorem Reachable.lt_of_mem_stack (reachable : world.Reachable) (member : some id ∈ world.graph.stack) :
    id < world.graph.effects.size := by
  obtain ⟨moves, path⟩ := reachable
  have known := path.recorded.running id member
  obtain ⟨effect, found⟩ := Option.isSome_iff_exists.mp known
  exact (Array.getElem?_eq_some_iff.mp found).1

theorem effect?_withEffect (world : World) (label : String) (task : Task) :
    (world.withEffect label task []).graph.effect? world.graph.effects.size = some { label, task } := by
  show (world.graph.create label task []).2.effect? _ = _
  rw [Graph.effect?_create, if_pos rfl]

/-- A new effect disposes no other one. -/
theorem isDisposed_withEffect (world : World) (label : String) (task : Task) (captures : List TargetId)
    (below : id < world.graph.effects.size) :
    (world.withEffect label task captures).graph.isDisposed id = world.graph.isDisposed id := by
  show Option.any Effect.disposed ((world.graph.create label task captures).2.effect? id) = _
  rw [Graph.effect?_create, if_neg (Nat.ne_of_lt below)]
  rfl

/-- A new effect is not referred to, and nothing else changes with it. -/
theorem gentle_withEffect (state : TargetId) (label : String) (task : Task) (captures : List TargetId)
    (world : World) :
    world.Gentle state (world.withEffect label task captures) := by
  have spares : world.Spares (world.withEffect label task captures) := by
    intro id below disposed
    rw [isDisposed_withEffect world label task captures below] at disposed
    exact Or.inl disposed
  have later : world.Later (world.withEffect label task captures) :=
    .of_move world (.created label task captures) trivial rfl fun _ impossible => by cases impossible
  exact .of_objects later (fun _ held => held) rfl rfl ⟨[], rfl, fun _ impossible => by cases impossible⟩
    spares rfl

theorem endures_withEffect (sound : world.Sound) (label : String) (task : Task) :
    (world.withEffect label task []).Endures world.graph.effects.size where
  known := by
    show _ < (world.graph.effects.push _).size
    rw [Array.size_push]
    exact Nat.lt_succ_self _
  lasting := by
    unfold Graph.isDisposed
    rw [effect?_withEffect]
    rfl
  free place refers := absurd (sound _ place refers) (Nat.lt_irrefl _)

/-- A new effect that captures nothing keeps no state from its end, and hastens none. -/
theorem Settled.withEffect (settled : world.Settled) (label : String) (task : Task) :
    (world.withEffect label task []).Settled where
  hosts := settled.hosts
  states id alive := by
    rcases settled.states id alive with handled | hosted | ⟨effect, referred, captured⟩
    · exact Or.inl handled
    · exact Or.inr (Or.inl hosted)
    · refine Or.inr (Or.inr ⟨effect, referred, ?_⟩)
      have same : (world.withEffect label task []).graph.effect? effect = world.graph.effect? effect := by
        show (world.graph.create label task []).2.effect? effect = _
        rw [Graph.effect?_create, if_neg]
        rintro rfl
        rw [Graph.capturesOf, Graph.effect?, Array.getElem?_eq_none (Nat.le_refl _)] at captured
        cases captured
      unfold Graph.capturesOf at captured ⊢
      rwa [same]

/-- An effect was registered for a binding: it has its label and its task, it endures, and it has run
once. No other effect is new, and no older effect subscribed. Where all that lives is kept, nothing ends. -/
structure Registered (state : TargetId) (label : String) (task : Task) (names : List String)
    (change : Forest Handler → Forest Handler) (before after : World) : Prop where
  gentle : before.Gentle state after
  forest : after.forest = change before.forest
  depends : after.isAlive state = true → ∀ name ∈ names,
    after.Depends before.graph.effects.size ⟨state, .named name⟩
  effects : after.graph.effects.size = before.graph.effects.size + 1
  label : after.labelOf? before.graph.effects.size = some label
  task : after.HasTask before.graph.effects.size task
  endures : after.Endures before.graph.effects.size
  older : ∀ id < before.graph.effects.size, Graph.GainsNothing id before.graph after.graph
  sustains : before.Settled → before.Sustains after

/-- An effect is registered as soon as its first run comes back. -/
theorem registered_of_runs {run : Runner} (label : String) (task : Task) {names : List String}
    {change : Forest Handler → Forest Handler} (offers : world.Offers state store guard)
    (runs : ∀ ready : World, ready.Offers state store guard →
      ready.graph.effect? world.graph.effects.size = some { label, task } →
      ready.graph.isRunning world.graph.effects.size = false →
      ∃ after, runEffect run world.graph.effects.size ready = .ok () after ∧
        ready.Refreshed state world.graph.effects.size names change after) :
    ∃ after, registerEffect run label task [] world = .ok world.graph.effects.size after ∧
      world.Registered state label task names change after := by
  have made := gentle_withEffect state label task [] world
  obtain ⟨held, holds, holding, -, sameForest, sameGraph, -, -⟩ :=
    gentle_hold state (.effect world.graph.effects.size) (world.withEffect label task [])
  let ready := held.note (.effectRegistered (number world.graph.effects.size) label)
  have toReady : world.Gentle state ready := (made.trans holding).trans (.note held _)
  have known : ready.graph.effect? world.graph.effects.size = some { label, task } := by
    show held.graph.effect? _ = _
    rw [sameGraph, effect?_withEffect]
  have idle : ready.graph.isRunning world.graph.effects.size = false := by
    have same : ready.graph.stack = world.graph.stack := toReady.later.stack
    have free : some world.graph.effects.size ∉ world.graph.stack := fun member =>
      absurd (offers.reachable.lt_of_mem_stack member) (Nat.lt_irrefl _)
    unfold Graph.isRunning
    rw [same]
    simpa using free
  obtain ⟨after, ran, refreshed⟩ := runs ready (offers.later toReady) known idle
  have whole := toReady.trans refreshed.gentle
  refine ⟨after, ?_, ?_⟩
  · have registers : registerEffect run label task [] world =
        (do runEffect run world.graph.effects.size; pure world.graph.effects.size : Live EffectId)
          ready := by
      show (do
        hold (.effect world.graph.effects.size)
        Live.note (.effectRegistered (number world.graph.effects.size) label)
        runEffect run world.graph.effects.size
        pure world.graph.effects.size : Live EffectId) (world.withEffect label task []) = _
      rw [bind_of_ok holds]
      rfl
    rw [registers, bind_of_ok ran]
    rfl
  · refine ⟨whole, ?_, refreshed.depends, ?_, ?_, ?_, ?_, ?_, ?_⟩
    · rw [refreshed.forest]
      show change held.forest = _
      rw [sameForest]
      rfl
    · rw [refreshed.effects]
      show held.graph.effects.size = _
      rw [sameGraph, withEffect, Graph.create]
      exact Array.size_push _
    · have toLast : ready.Later after := refreshed.gentle.later
      exact toLast.labelOf? (Option.map_eq_some_iff.mpr ⟨_, known, rfl⟩)
    · have toLast : ready.Later after := refreshed.gentle.later
      exact toLast.hasTask ⟨_, known, rfl⟩
    · have rest := (holding.trans (.note held _)).trans refreshed.gentle
      exact (endures_withEffect offers.sound label task).later rest
    · intro id below
      have created : Graph.GainsNothing id world.graph ready.graph := by
        apply Graph.GainsNothing.of_dependencies
        show (held.graph.effect? id).map _ = _
        rw [sameGraph]
        show ((world.graph.create label task []).2.effect? id).map _ = _
        rw [Graph.effect?_create, if_neg (Nat.ne_of_lt below)]
      exact created.trans (refreshed.others id (Nat.ne_of_lt below))
    · intro settled
      have noted : held.Undisturbed ready := .of_same rfl rfl rfl rfl
      have still : ready.Settled :=
        ((undisturbed_hold _ holds).trans noted).settled (settled.withEffect label task)
      have runs := refreshed.undisturbed still
      have holds := undisturbed_hold _ holds
      refine ⟨runs.settled still, runs.hosts.trans holds.hosts, fun id => ?_, fun id below => ?_⟩
      · exact (runs.isAlive id).trans (holds.isAlive id)
      · rw [runs.isDisposed]
        show held.graph.isDisposed id = _
        rw [sameGraph, isDisposed_withEffect world label task [] below]

/-- The effect of a site is registered and shows there what the store says. -/
theorem registered_site (depth : Nat) (site : Site) (free : site.isCallFree = true) (label : String)
    (offers : world.Offers state store guard) :
    ∃ after, registerEffect (runTo (depth + 1)) label (site.task state) [] world =
        .ok world.graph.effects.size after ∧
      world.Registered state label (site.task state) (site.seen store).1
        (·.setTextContent site.node (site.seen store).2) after :=
  registered_of_runs label (site.task state) offers fun _ ready known idle =>
    refreshed_runEffect depth known rfl rfl idle ready.found ready.alive free ready.reachable

/-- The effect of an input is registered and gives it the value that the store says. -/
theorem registered_input (depth : Nat) {source : String} (free : Expr.isCallFreeSource source = true)
    (node : NodeId) (label : String) (offers : world.Offers state store guard) :
    ∃ after, registerEffect (runTo (depth + 1)) label (.valueBinding state node source) [] world =
        .ok world.graph.effects.size after ∧
      world.Registered state label (.valueBinding state node source) (store.evaluateText source).1
        (·.refreshValue node (store.evaluateText source).2) after :=
  registered_of_runs label (.valueBinding state node source) offers fun _ ready known idle =>
    refreshed_valueBinding depth known rfl rfl idle ready.found ready.alive free ready.reachable

end World

end LiveMarkup
