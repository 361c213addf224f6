import LiveMarkup.Proofs.Orderly
import LiveMarkup.Proofs.Writes

/-
This file states how long states are mentioned: as long as something refers to them, and no longer.
-/

namespace LiveMarkup

namespace World

variable {before after world : World}

/-- The graph mentions only states that live and that something refers to. A state that was tracked by
hand after its end is an exception, and so is an identity without state. -/
def Anchored (world : World) : Prop :=
  ∀ id, (world.store? id).isSome = true → world.graph.Mentions id → Deed.strayed id ∉ world.deeds →
    world.isAlive id = true ∧ world.Refers id

theorem Orderly.alive (orderly : world.Orderly) {id : TargetId} (known : (world.store? id).isSome = true)
    (mentions : world.graph.Mentions id) (straight : Deed.strayed id ∉ world.deeds) :
    world.isAlive id = true := by
  have lasts := (orderly.cleared id mentions).resolve_right straight
  cases alive : world.isAlive id with
  | true => rfl
  | false => exact absurd ((hasEnded_iff world id).mpr ⟨known, alive⟩) (by simp [lasts])

theorem Orderly.anchored (orderly : world.Orderly) (collected : world.IsCollected) : world.Anchored := by
  intro id known mentions straight
  have alive := orderly.alive known mentions straight
  exact ⟨alive, collected.refers alive⟩

theorem orderly_empty : empty.Orderly where
  reachable := ⟨[], .here⟩
  cleared id _ := Or.inl (by simp [empty, hasEnded, store?])
  housed id host found := by simp [empty, host?] at found

/-- References were let go, and effects were disposed. A living state stays alive exactly if something
still refers to it, and else nothing mentions it afterwards. All other targets keep their subscriptions,
except those of disposed effects. -/
structure LetGo (disposed : List EffectId) (before after : World) : Prop where
  alive : ∀ id, after.isAlive id = true ↔ before.isAlive id = true ∧ after.Refers id
  cleared : ∀ id, before.isAlive id = true → ¬ after.Refers id → ¬ after.graph.Mentions id
  kept : ∀ dependency, (before.isAlive dependency.target = true → after.Refers dependency.target) →
    after.graph.subscribersOf dependency =
      (before.graph.subscribersOf dependency).filter fun id => !after.graph.isDisposed id
  disposed : ∀ id, after.graph.isDisposed id = true →
    before.graph.isDisposed id = true ∨ id ∈ disposed ∨ before.EndsWithHost after id

theorem Sheds.letGo {disposed : List EffectId} (sheds : before.Sheds (· ∈ disposed) after)
    (collected : after.IsCollected) (reachable : before.Reachable) : before.LetGo disposed after where
  alive id := ⟨fun lives => ⟨sheds.alive id lives, collected.refers lives⟩,
    fun ⟨lives, refers⟩ => sheds.survives id lives refers⟩
  cleared id alive free := by
    have gone : after.isAlive id = false := Bool.eq_false_iff.mpr fun lives => free (collected.refers lives)
    have known : (after.store? id).isSome = true := by
      obtain ⟨store, found, -⟩ := (Option.any_eq_true _ _).mp alive
      rw [sheds.known, found]
      rfl
    have ended := (hasEnded_iff after id).mpr ⟨known, gone⟩
    have lasted := hasEnded_eq_false alive
    have unlisted := (sheds.released id ended).resolve_left (by simp [lasted])
    obtain ⟨moves, path⟩ := sheds.reachable reachable
    intro mentions
    exact Bool.false_ne_true (unlisted.symm.trans ((path.recorded.agrees.mentions_iff id).mp mentions))
  kept dependency refers := by
    refine sheds.kept reachable dependency fun ended => ?_
    obtain ⟨known, gone⟩ := (hasEnded_iff after _).mp ended
    refine (hasEnded_iff before _).mpr ⟨(sheds.known _).symm.trans known, ?_⟩
    refine Bool.eq_false_iff.mpr fun lives => ?_
    exact Bool.false_ne_true (gone.symm.trans (sheds.survives _ lives (refers lives)))
  disposed := sheds.disposed

/-- These commands let references go, and run no code. They dispose the given effects. -/
def disposedBy (world : World) : Command → Option (List EffectId)
  | .state (.drop _) => some []
  | .effect (.drop _) => some []
  | .effect (.dispose name) => some (world.names.effects.get? name).toList
  | .effect .disposeActive => some world.graph.active?.toList
  | .host (.drop _) => some []
  | .host (.dropBindings _) => some []
  | .host (.disposeBindings name) => some ((world.names.bindings.get? name).elim [] Bindings.effects)
  | _ => none

end World

namespace Live

variable {A : Type} {world : World}

theorem worldAfter_operation (action : Live A) (world : World) :
    worldAfter (operation action) world =
      { worldAfter action world with holds := world.holds }.collect := by
  unfold worldAfter operation ending
  cases action world <;> rfl

/-- Nothing is left for a collection when an operation ends. -/
theorem isCollected_operation (action : Live A) (world : World) :
    (worldAfter (operation action) world).IsCollected := by
  rw [worldAfter_operation]
  exact World.isCollected_collect _

/-- The record of a command makes no difference to that. -/
theorem isCollected_recorded (name : String) (isBlock : Bool) (action : Live Value) (world : World) :
    (worldAfter (recorded name isBlock action) world).IsCollected := by
  have collected := isCollected_operation action world
  unfold worldAfter at collected
  unfold worldAfter recorded
  cases outcome : operation action world with
  | ok value after =>
      rw [outcome] at collected
      cases isBlock <;> exact collected
  | error stop after =>
      rw [outcome] at collected
      cases stop <;> exact collected

theorem tends_iff {action : Live A} :
    Follows Conduct.tending action world ↔ world.Tends (worldAfter action world) := by
  unfold Follows worldAfter
  cases action world with
  | ok value after => rfl
  | error stop after => cases stop <;> rfl

/-- A name that was given to nothing leaves the world alone. -/
theorem worldAfter_effectNamed (name : String) (next : EffectId → Live A) (world : World) :
    worldAfter (effectNamed name >>= next) world =
      match world.names.effects.get? name with
      | some id => worldAfter (next id) (worldAfter (hold (.effect id)) world)
      | none => world := by
  unfold effectNamed worldAfter
  rw [bind_apply, get_bind]
  cases world.names.effects.get? name <;> rfl

theorem worldAfter_bindingsNamed (name : String) (next : Bindings → Live A) (world : World) :
    worldAfter (bindingsNamed name >>= next) world =
      match world.names.bindings.get? name with
      | some bindings => worldAfter (next bindings) world
      | none => world := by
  unfold bindingsNamed worldAfter
  rw [bind_apply, get_bind]
  cases world.names.bindings.get? name <;> rfl

/-- Code sheds what nothing refers to, and what the operation holds stays held. -/
def Loosens (disposed : List EffectId) (world after : World) : Prop :=
  world.Sheds (· ∈ disposed) after ∧ ∀ held ∈ world.holds, held ∈ after.holds

namespace Loosens

variable {disposed : List EffectId}

theorem refl (world : World) : Loosens disposed world world :=
  ⟨.of_targets (.refl world) rfl, fun _ member => member⟩

theorem hold (held : Hold) (world : World) :
    Loosens disposed world (worldAfter (Live.hold held) world) := by
  have after : worldAfter (Live.hold held) world =
      if world.holds.contains held then world else { world with holds := held :: world.holds } := rfl
  rw [after]
  split
  · exact refl world
  · exact ⟨.of_targets (.of_same rfl rfl rfl) rfl, fun _ member => List.mem_cons_of_mem _ member⟩

/-- Names may go, and names of other objects may come. -/
theorem names {names : Names} (world : World)
    (handles : ∀ entry ∈ names.handles, entry ∈ world.names.handles)
    (effects : ∀ entry ∈ names.effects, entry ∈ world.names.effects) :
    Loosens disposed world { world with names } :=
  ⟨(World.Yields.of_loss world handles effects fun _ member => member).toSheds, fun _ member => member⟩

/-- What is disposed is shed together with what it kept. -/
theorem dispose {first second : World} (early : Loosens disposed world first)
    (yields : first.Yields (· ∈ disposed) second) (sweeps : first.Sweeps second) :
    Loosens disposed world second.collect := by
  refine ⟨early.1.trans (yields.trans (World.yields_collect second)), fun held member => ?_⟩
  rw [(sweeps.trans (World.sweeps_collect second)).holds]
  exact early.2 held member

/-- Commands that let references go run no code, so that nothing refers to a state newly. -/
theorem of_disposedBy {command : Command} (lets : world.disposedBy command = some disposed)
    (run : Runner) (arguments : List Value) :
    Loosens disposed world (worldAfter (perform run arguments command) world) := by
  unfold World.disposedBy at lets
  split at lets
  case h_1 name => exact names world (fun _ member => (List.mem_filter.mp member).1) fun _ member => member
  case h_2 name => exact names world (fun _ member => member) fun _ member => (List.mem_filter.mp member).1
  case h_3 name =>
    have performed : perform run arguments (.effect (.dispose name)) =
        effectNamed name >>= fun id => disposeEffect id >>= fun _ => pure .null := rfl
    rw [performed, worldAfter_effectNamed]
    cases found : world.names.effects.get? name with
    | none => exact refl world
    | some id =>
        rw [found] at lets
        cases lets
        exact (hold (.effect id) world).dispose (World.yields_disposeEffect List.mem_cons_self _)
          (World.sweeps_disposeEffect _ id)
  case h_4 =>
    have performed : worldAfter (perform run arguments (.effect .disposeActive)) world =
        worldAfter (match world.graph.active? with
          | some id => disposeEffect id >>= fun _ => pure (.bool true)
          | none => pure (.bool false) : Live Value) world := rfl
    rw [performed]
    cases active : world.graph.active? with
    | none => exact refl world
    | some id =>
        rw [active] at lets
        cases lets
        exact (refl world).dispose (World.yields_disposeEffect List.mem_cons_self _)
          (World.sweeps_disposeEffect _ id)
  case h_5 => exact names world (fun _ member => member) fun _ member => member
  case h_6 => exact names world (fun _ member => member) fun _ member => member
  case h_7 name =>
    have performed : perform run arguments (.host (.disposeBindings name)) =
        bindingsNamed name >>= fun bindings => nameBindings name {} >>= fun _ =>
          disposeBindings bindings >>= fun _ => pure .null := rfl
    rw [performed, worldAfter_bindingsNamed]
    cases found : world.names.bindings.get? name with
    | none => exact refl world
    | some bindings =>
        rw [found] at lets
        cases lets
        have emptied : Loosens bindings.effects world (worldAfter (nameBindings name {}) world) :=
          names world (fun _ member => member) fun _ member => member
        exact emptied.dispose (World.yields_disposeBindings (fun _ member => member) _)
          (World.sweeps_disposeBindings _ bindings)
  case h_8 => cases lets

/-- The operation itself lets go at its end. -/
theorem letGo {action : Live A} (loosens : Loosens disposed world (worldAfter action world))
    (reachable : world.Reachable) : world.LetGo disposed (worldAfter (operation action) world) := by
  have closed := loosens.1.trans ((World.Yields.of_loss (worldAfter action world)
    (fun _ member => member) (fun _ member => member) loosens.2).trans (World.yields_collect _))
  rw [← worldAfter_operation] at closed
  exact closed.letGo (isCollected_operation action world) reachable

end Loosens

end Live

namespace World

/-- A scenario keeps a world orderly. -/
theorem tends_play (world : World) (commands : List Command) : world.Tends (world.play commands).2 := by
  have starts : ∀ command ∈ commands, ∀ world, Live.Follows
      (.always World.Tends World.Tends.refl World.Tends.trans) (Live.start command) world :=
    fun command _ world => (start_follows lawful_tending command world).mono
      (fun _ tends => tends) fun _ tends => tends
  exact play_follows_of (fun world => .of_same rfl rfl rfl (fun _ held => held) (List.suffix_refl _))
    starts world

end World

open Live in
/-- Whatever orderly code an operation may reach, each command leaves a world in which the graph mentions
only states that something refers to, and all code of a world is orderly. In a scenario these are the
states that a handle, a living host or an effect keeps. Whenever references are let go, the states that
nothing refers to any more are cleared, also those that other states kept, and nothing else is. -/
theorem states_end_with_last_reference :
    (∀ run : Runner, (∀ activity (world : World), world.Tends (worldAfter (run activity) world)) →
      ∀ name isBlock arguments command (world : World),
        world.Tends (worldAfter (recorded name isBlock (perform run arguments command)) world) ∧
        (world.Orderly →
          (worldAfter (recorded name isBlock (perform run arguments command)) world).Anchored)) ∧
    (∀ depth activity (world : World), world.Tends (worldAfter (runTo depth activity) world)) ∧
    (∀ commands, (World.empty.play commands).2.Orderly ∧
      ∀ id, ((World.empty.play commands).2.store? id).isSome = true →
        (World.empty.play commands).2.graph.Mentions id →
        Deed.strayed id ∉ (World.empty.play commands).2.deeds →
        (World.empty.play commands).2.isAlive id = true ∧ (World.empty.play commands).2.KeepsState id) ∧
    ∀ world : World, world.Reachable → world.LetGo [] world.collect ∧
      ∀ run arguments command disposed, world.disposedBy command = some disposed →
        world.LetGo disposed (worldAfter (operation (perform run arguments command)) world) := by
  refine ⟨?_, ?_, ?_, ?_⟩
  · intro run tends name isBlock arguments command world
    have keeps : run.Keeps Conduct.tending := fun activity world _ => tends_iff.mpr (tends activity world)
    have lawful := (Tending.primitive keeps).lawful
    have performed := tends_iff.mp (lawful.recorded name isBlock (lawful.perform arguments world command))
    exact ⟨performed, fun orderly =>
      (performed.orderly orderly).anchored (isCollected_recorded name isBlock _ world)⟩
  · intro depth activity world
    have keeps := Runner.keeps_runTo World.Tends.refl (fun depth _ => lawful_tending depth) depth
    exact tends_iff.mp (keeps activity world trivial)
  · intro commands
    have orderly := (World.empty.tends_play commands).orderly World.orderly_empty
    have settled := (World.idle_play commands rfl rfl World.settled_empty).2
    refine ⟨orderly, fun id known mentions straight => ?_⟩
    have alive := orderly.alive known mentions straight
    exact ⟨alive, settled.states id alive⟩
  · intro world reachable
    constructor
    · exact (World.yields_collect world).toSheds.letGo (World.isCollected_collect world) reachable
    · intro run arguments command disposed lets
      exact (Loosens.of_disposedBy lets run arguments).letGo reachable

/-- An effect captured one state and reads another one. Nothing but that keeps either of them, except a
handle of the other one. -/
def chainedStates : List Command :=
  [.state (.createEmpty "captured"), .state (.createEmpty "kept"),
    .createEffect "keeper" [.state (.get "kept" "a")] { captures := ["captured"] },
    .createEffect "reader" [.state (.get "captured" "a")] {},
    .effect (.drop "keeper"), .state (.drop "captured")]

/-- The last handle goes. -/
def chainedEnd : World :=
  Live.worldAfter (Live.operation (Live.perform (Live.runTo 0) [] (.state (.drop "kept"))))
    (World.empty.play chainedStates).2

/-- Both states end, and no effect has a record of them. -/
theorem cleared_of_chainedStates :
    ((World.empty.play chainedStates).2.isAlive 0 = true ∧
      (World.empty.play chainedStates).2.graph.Mentions 0 ∧
      (World.empty.play chainedStates).2.KeepsState 0) ∧
    (¬ chainedEnd.graph.Mentions 0 ∧ ¬ chainedEnd.graph.Mentions 1) ∧
    (Live.worldAfter (Live.recorded "drop" false (Live.perform
      (fun _ => throwThe Stop .exhausted) [] (.state (.drop "kept"))))
      (World.empty.play chainedStates).2).Anchored := by
  obtain ⟨orderly, kept⟩ := states_end_with_last_reference.2.2.1 chainedStates
  have lets := (states_end_with_last_reference.2.2.2 _ orderly.reachable).2 (Live.runTo 0) []
    (.state (.drop "kept")) [] rfl
  have known : ((World.empty.play chainedStates).2.store? 0).isSome = true := by decide +kernel
  have mentions : (World.empty.play chainedStates).2.graph.Mentions 0 := Or.inl (by decide +kernel)
  obtain ⟨alive, keeps⟩ := kept 0 known mentions (by decide +kernel)
  have early : (World.empty.play chainedStates).2.isAlive 1 = true := by decide +kernel
  have gone : chainedEnd.isAlive 0 = false ∧ chainedEnd.isAlive 1 = false := by decide +kernel
  refine ⟨⟨alive, mentions, keeps⟩, ⟨?_, ?_⟩, ?_⟩
  · refine lets.cleared 0 alive fun refers => ?_
    exact Bool.false_ne_true (gone.1.symm.trans ((lets.alive 0).mpr ⟨alive, refers⟩))
  · refine lets.cleared 1 early fun refers => ?_
    exact Bool.false_ne_true (gone.2.symm.trans ((lets.alive 1).mpr ⟨early, refers⟩))
  · exact (states_end_with_last_reference.1 (fun _ => throwThe Stop .exhausted)
      (fun _ world => .refl world) _ _ _ _ _).2 orderly

end LiveMarkup
