import LiveMarkup.Proofs.Continuing
import LiveMarkup.Proofs.Notification

/-
This file shows that the stack is balanced: each operation leaves it as it was, however the code in it
ends, and no effect is on it twice. The code may be any code that is itself balanced where the effects on
the stack are different.
-/

namespace LiveMarkup

namespace Graph

variable {Task : Type} {graph : Graph Task}

/-- No effect has two frames, whatever frames without effect there are. -/
def Unrepeated (graph : Graph Task) : Prop := (graph.stack.filterMap id).Nodup

/-- An effect enters only while it has no frame. -/
theorem Unrepeated.moved (unrepeated : graph.Unrepeated) (move : Move Task)
    (allowed : graph.Allows move) : (graph.moved move).Unrepeated := by
  unfold Unrepeated at unrepeated ⊢
  rw [stack_moved]
  cases move with
  | entered frame =>
      cases frame with
      | none => exact unrepeated
      | some entered =>
          obtain ⟨effect, found, lasting, idle⟩ := allowed
          have absent : entered ∉ graph.stack.filterMap id := by
            simpa [isRunning] using idle
          exact List.nodup_cons.mpr ⟨absent, unrepeated⟩
  | left => exact unrepeated.sublist ((List.tail_sublist _).filterMap _)
  | _ => exact unrepeated

theorem Path.unrepeated {start finish : Graph Task} {moves : List (Move Task)}
    (path : Path start moves finish) (unrepeated : start.Unrepeated) : finish.Unrepeated := by
  induction path with
  | here => exact unrepeated
  | step move _ allowed inductionHypothesis => exact inductionHypothesis.moved move allowed

end Graph

namespace World

theorem Reachable.unrepeated {world : World} (reachable : world.Reachable) :
    world.graph.Unrepeated := by
  obtain ⟨moves, path⟩ := reachable
  exact path.unrepeated List.nodup_nil

/-- What is reachable stays reachable, and has the same stack. -/
def Balanced (before after : World) : Prop :=
  before.Reachable → after.Reachable ∧ after.graph.stack = before.graph.stack

theorem Balanced.refl (world : World) : world.Balanced world := fun reachable => ⟨reachable, rfl⟩

theorem Balanced.trans {first second third : World} (early : first.Balanced second)
    (late : second.Balanced third) : first.Balanced third := by
  intro reachable
  obtain ⟨middle, same⟩ := early reachable
  obtain ⟨last, again⟩ := late middle
  exact ⟨last, again.trans same⟩

theorem Later.balanced {before after : World} (later : before.Later after) :
    before.Balanced after := fun reachable => ⟨later.reachable reachable, later.stack⟩

/-- What happens elsewhere than in the graph does not concern the stack. -/
theorem Balanced.of_graph {before world after : World} (balanced : before.Balanced world)
    (graph : after.graph = world.graph) : before.Balanced after := by
  intro reachable
  obtain ⟨reached, same⟩ := balanced reachable
  unfold Reachable at reached ⊢
  rw [graph]
  exact ⟨reached, same⟩

end World

/-- This conduct keeps the stack where it started in a reachable world, however code ends. -/
def Conduct.balancing : Conduct :=
  .always World.Balanced World.Balanced.refl World.Balanced.trans

namespace Balancing

open Live

variable {run : Runner} {world : World} {A : Type}

/-- What leads to a later world is balanced. -/
theorem of_lasting {action : Live A} (follows : Follows Conduct.lasting action world) :
    Follows Conduct.balancing action world :=
  follows.mono (fun _ later => World.Later.balanced later) fun _ later => World.Later.balanced later

theorem calm_of_later {before after : World} (later : before.Later after) :
    Conduct.balancing.calm before after := later.balanced

/-- A frame is taken off, and the stack below it is the one that was there before. -/
theorem inFrame {frame : Option EffectId} {action : Live A}
    (allowed : world.graph.Allows (.entered frame))
    (ends : Conduct.balancing.Ends (world.entered frame)
      (action { world with graph := world.graph.push frame })) :
    Follows Conduct.balancing (Live.inFrame frame action) world := by
  have left : ∀ after, (world.entered frame).Balanced after →
      world.Balanced { after with graph := after.graph.pop }.collect := by
    intro after balanced
    refine World.Balanced.trans ?_ (World.later_collect _).balanced
    rintro ⟨moves, path⟩
    obtain ⟨⟨more, reached⟩, same⟩ := balanced ⟨_, path.step (.entered frame) allowed⟩
    refine ⟨⟨_, reached.step .left trivial⟩, ?_⟩
    show after.graph.stack.tail = world.graph.stack
    rw [same, World.entered, Graph.stack_moved]
    rfl
  exact Follows.inFrame ends left left

theorem runEffect (keeps : run.Keeps Conduct.balancing) (id : EffectId) (world : World) :
    Follows Conduct.balancing (Live.runEffect run id) world :=
  Follows.runEffect keeps (fun notice => calm_of_later (World.later_note world notice))
    fun allowed _ ends => inFrame allowed ends

theorem plain : Plain Conduct.balancing where
  finishes name outcome world := calm_of_later (Lasting.plain.finishes name outcome world)
  notes notice world := calm_of_later (World.later_note world notice)
  meets tag world := calm_of_later (Lasting.plain.meets tag world)
  parses parses world := calm_of_later (Lasting.plain.parses parses world)
  holds held world := of_lasting (Lasting.plain.holds held world)
  operates _ world follows :=
    follows.ending fun after => calm_of_later (World.later_closing after world.holds)
  letsGo _ world := Follows.modifies (calm_of_later (World.later_closing world _))
  untracks _ _ follows := inFrame trivial follows
  tracks target key _ _ := of_lasting (Lasting.track target key)
  tracksByHand target key world := of_lasting (Lasting.plain.tracksByHand target key world)
  nodes nodes world := calm_of_later (Lasting.plain.nodes nodes world)

theorem trigger (keeps : run.Keeps Conduct.balancing) (target : TargetId) (name : String)
    (world : World) : Follows Conduct.balancing (Live.trigger run target name) world :=
  plain.trigger (fun _ after => calm_of_later (World.later_holds after _)) (runEffect keeps)
    target name world

theorem writeValue (keeps : run.Keeps Conduct.balancing) (state : TargetId) (key : String)
    (value : Value) (world : World) :
    Follows Conduct.balancing (Live.writeValue run state key value) world :=
  plain.writeValue (of_lasting (Lasting.putValue state key value)) (trigger keeps state key)

theorem basic (keeps : run.Keeps Conduct.balancing) : Basic Conduct.balancing run where
  toPlain := plain
  keeps := keeps
  breaks balanced := balanced
  records _ world := (World.Balanced.refl world).of_graph rfl
  tracksHost _ host key _ _ _ := of_lasting (Lasting.track host.state key)
  names _ world _ := (World.Balanced.refl world).of_graph rfl
  recovers _ _ broken := World.Balanced.of_graph broken rfl
  emits _ _ world _ := (World.Balanced.refl world).of_graph rfl

theorem primitive (keeps : run.Keeps Conduct.balancing) :
    Primitive Conduct.balancing run fun _ => False where
  toBasic := basic keeps
  collects world := calm_of_later (World.later_collect world)
  addsTarget _ world _ := (World.Balanced.refl world).of_graph rfl
  presets state key value world := of_lasting (Lasting.presetValue state key value world)
  writes := writeValue keeps
  addsMethod _ _ _ world := Follows.modifies ((World.Balanced.refl world).of_graph rfl)
  starts label task captures world _ := calm_of_later (Lasting.later_withEffect label task captures world)
  runsEffect id world _ := runEffect keeps id world
  triggers := trigger keeps
  releases target world := of_lasting (Lasting.releaseTarget target world)
  disposes id _ world balanced _ := balanced.trans (World.later_disposeEffect world id).balanced
  namesEffect _ _ _ _ balanced _ := World.Balanced.of_graph balanced rfl
  namesBindings _ _ _ _ balanced _ := World.Balanced.of_graph balanced rfl
  createsNode _ world := (World.Balanced.refl world).of_graph rfl
  plants _ world := (World.Balanced.refl world).of_graph rfl
  setsValue _ _ world := (World.Balanced.refl world).of_graph rfl
  listens _ _ _ world := (World.Balanced.refl world).of_graph rfl
  edits _ _ _ _ _ _ := (World.Balanced.refl _).of_graph rfl
  shows node text world := Follows.asks ((of_lasting (Lasting.attest _)).bind fun _ after _ =>
    of_lasting (Lasting.modifyForest (Forest.size_setTextContent after.forest node text)))
  tells _ _ world _ := (World.Balanced.refl world).of_graph rfl
  addsHost _ _ _ _ _ balanced _ _ := World.Balanced.of_graph balanced rfl
  startsRenderer label id world := calm_of_later (Lasting.later_withEffect label (.render id) [] world)
  runsRenderer := runEffect keeps
  rendersBy _ _ _ _ balanced _ := World.Balanced.of_graph balanced rfl
  namesHost _ _ world := (World.Balanced.refl world).of_graph rfl
  mounts _ world _ := (World.Balanced.refl world).of_graph rfl
  changesTemplate _ _ world := (World.Balanced.refl world).of_graph rfl
  hooks _ _ _ world := (World.Balanced.refl world).of_graph rfl
  templates _ _ world _ := (World.Balanced.refl world).of_graph rfl
  dropsContent id world _ := of_lasting (Lasting.dropBindings id world)
  installs id host bindings fragment origin world _ balanced _ := by
    exact World.Balanced.of_graph balanced rfl
  removes id host world _ := of_lasting (Lasting.removeContent id host world)
  rendersOwn _ _ impossible := impossible.elim
  mountsOwn _ _ impossible := impossible.elim
  rerendersOwn _ _ impossible := impossible.elim
  destroysOwn _ _ impossible := impossible.elim

end Balancing

namespace Live

variable {A : Type}

/-- Code is balanced if it leads from each reachable world to a reachable world with the same stack,
whether it returns, fails, panics or is exhausted. -/
def Balances (action : Live A) : Prop := ∀ world : World, world.Balanced (worldAfter action world)

theorem balances_iff (action : Live A) :
    Balances action ↔ ∀ world, Follows Conduct.balancing action world := by
  refine forall_congr' fun world => ?_
  unfold worldAfter Follows
  cases action world with
  | ok value after => rfl
  | error stop after => cases stop <;> rfl

/-- All operations are balanced that reach code of the world, given the way to run it. -/
structure OperationsBalance (run : Runner) : Prop where
  runs : ∀ id, Balances (runEffect run id)
  registers : ∀ label task captures, Balances (registerEffect run label task captures)
  triggers : ∀ target name, Balances (trigger run target name)
  writes : ∀ state key value, Balances (writeValue run state key value)
  updates : ∀ state key change, Balances (updateValue run state key change)
  calls : ∀ state name arguments, Balances (callMethod run state name arguments)
  evaluates : ∀ state source, Balances (evaluate run state source)
  untracks : ∀ {A : Type} (action : Live A), Balances action → Balances (untracked action)
  dispatches : ∀ kind node, Balances (dispatch run kind node)
  inputs : ∀ node value, Balances (inputValue run node value)
  emits : ∀ hooks kind, Balances (emitHooks run hooks kind)
  binds : ∀ root state, Balances (bind run root state)
  createsHost : ∀ component document, Balances (createHost run component document)
  mounts : ∀ id, Balances (mountHost run id)
  renders : ∀ id, Balances (renderHost run id)
  rerenders : ∀ id, Balances (rerender run id)
  destroys : ∀ id, Balances (destroyHost run id)
  performs : ∀ arguments command, Balances (perform run arguments command)

/-- The code that is run need only be balanced itself. -/
theorem operationsBalance {run : Runner} (balanced : ∀ activity, Balances (run activity)) :
    OperationsBalance run := by
  have keeps : run.Keeps Conduct.balancing := fun activity world _ =>
    (balances_iff _).mp (balanced activity) world
  have primitive := Balancing.primitive keeps
  have lawful := primitive.lawful
  constructor
  case runs => exact fun id => (balances_iff _).mpr (Balancing.runEffect keeps id)
  case registers =>
    exact fun label task captures => (balances_iff _).mpr fun world => Balancing.plain.registerEffect
      (Balancing.calm_of_later (Lasting.later_withEffect label task captures world))
      fun id after _ => Balancing.runEffect keeps id after
  case triggers => exact fun target name => (balances_iff _).mpr (Balancing.trigger keeps target name)
  case writes =>
    exact fun state key value => (balances_iff _).mpr (Balancing.writeValue keeps state key value)
  case updates =>
    exact fun state key change => (balances_iff _).mpr fun _ => lawful.updateValue state key change
  case calls =>
    exact fun state name arguments => (balances_iff _).mpr (lawful.callMethod state name arguments)
  case evaluates => exact fun state source => (balances_iff _).mpr fun _ => lawful.evaluate trivial source
  case untracks =>
    exact fun action follows => (balances_iff _).mpr fun _ =>
      lawful.untracked ((balances_iff _).mp follows)
  case dispatches => exact fun kind node => (balances_iff _).mpr fun _ => lawful.dispatch kind node
  case inputs => exact fun node value => (balances_iff _).mpr fun _ => lawful.inputValue node value
  case emits => exact fun hooks kind => (balances_iff _).mpr fun _ => lawful.emitHooks hooks kind
  case binds => exact fun root state => (balances_iff _).mpr fun world => (primitive.bind root state world).1
  case createsHost =>
    exact fun component document => (balances_iff _).mpr fun world =>
      (primitive.createHost primitive.enters component document world).1
  case mounts => exact fun id => (balances_iff _).mpr (primitive.mountsForeign False.elim)
  case renders => exact fun id => (balances_iff _).mpr (primitive.rendersForeign False.elim)
  case rerenders => exact fun id => (balances_iff _).mpr fun world => lawful.rerenders id world trivial
  case destroys => exact fun id => (balances_iff _).mpr (primitive.destroyHost id)
  case performs =>
    exact fun arguments command => (balances_iff _).mpr fun world => lawful.perform arguments world command

theorem balances_runTo (depth : Nat) (activity : Activity) : Balances (runTo depth activity) :=
  (balances_iff _).mpr fun world => Runner.keeps_runTo World.Balanced.refl
    (fun _ keeps => (Balancing.primitive keeps).lawful) depth activity world trivial

/-- The body of an effect that is running is out of reach. -/
theorem runEffect_of_running {id : EffectId} {world : World} (running : some id ∈ world.graph.stack)
    (run other : Runner) : runEffect run id world = runEffect other id world := by
  cases found : world.graph.effect? id with
  | none => simp only [runEffect, get_bind, found]
  | some effect =>
      have busy : world.graph.isRunning id = true := List.contains_iff_mem.mpr running
      rw [runEffect_apply run found, runEffect_apply other found, if_pos busy, if_pos busy]

/-- The body of an effect starts in a reachable world, where the effect has just got its only frame. -/
theorem runEffect_of_idle {id : EffectId} {effect : Effect Task} {world : World}
    (reachable : world.Reachable) (found : world.graph.effect? id = some effect)
    (lasting : effect.disposed = false) (idle : some id ∉ world.graph.stack) (run : Runner) :
    runEffect run id world = runBody run id effect world ∧ (world.entered (some id)).Reachable := by
  have free : world.graph.isRunning id = false := by
    simpa [Graph.isRunning] using idle
  constructor
  · rw [runEffect_apply run found, if_neg (by simp [lasting]), if_neg (by simp [free])]
  · obtain ⟨moves, path⟩ := reachable
    exact ⟨_, path.step (.entered (some id)) ⟨effect, found, lasting, free⟩⟩

end Live

open Live in
/-- Whatever balanced code an operation may reach, the operation leaves the stack as it was, however it
ends, and all code of a world is balanced. In a reachable world no effect is on the stack twice. The body
of an effect that is on the stack is not entered, and any other body starts in a reachable world again. -/
theorem stack_balanced_unrepeated :
    (∀ run : Runner, (∀ activity, Balances (run activity)) → OperationsBalance run) ∧
    (∀ depth activity, Balances (runTo depth activity)) ∧
    (∀ world : World, world.Reachable → world.graph.Unrepeated ∧
      ∀ id, (some id ∈ world.graph.stack →
          ∀ run other, runEffect run id world = runEffect other id world) ∧
        ∀ effect, world.graph.effect? id = some effect → effect.disposed = false →
          some id ∉ world.graph.stack → ∀ run,
            runEffect run id world = runBody run id effect world ∧
              (world.entered (some id)).Reachable) ∧
    ∀ commands, (World.empty.play commands).2.Reachable ∧
      (World.empty.play commands).2.graph.stack = [] := by
  refine ⟨fun _ balanced => operationsBalance balanced, balances_runTo, ?_, ?_⟩
  · intro world reachable
    refine ⟨reachable.unrepeated, fun id => ⟨runEffect_of_running, ?_⟩⟩
    exact fun effect found lasting idle run => runEffect_of_idle reachable found lasting idle run
  · intro commands
    have later := World.empty.later_play commands
    exact ⟨later.reachable ⟨[], .here⟩, later.stack⟩

/-- An effect runs another one in an untracked block. That one writes what the first one read, and then
panics inside a further block. -/
def panickingWrites : List Command :=
  [.state (.createEmpty "s"), .host (.createEmitter "hooks"),
    .onHook "hooks" .update
      [.createEffect "outer"
        [.state (.get "s" "a"),
          .untracked [.createEffect "inner"
            [.state (.set "s" "a" (.integer 1)), .untracked [.panic (some "stop")]] {}]] {}],
    .host (.emit "hooks" .update)]

/-- Two effects are on the stack with frames between them, and a third one waits. The latest move stands
in front. -/
def nestedFrames : List (Graph.Move Task) :=
  [.created "waiting" (.script "waiting" []) [], .entered none, .entered (some 1),
    .created "inner" (.script "inner" []) [], .entered none, .entered (some 0),
    .created "outer" (.script "outer" []) []]

open Live in
theorem balanced_of_panickingWrites :
    OperationsBalance (fun _ => throwThe Stop (.panicked none)) ∧
      (World.empty.play panickingWrites).2.graph.stack = [] ∧
      (∃ moves graph, Graph.Path {} moves graph ∧ graph.stack = [none, some 1, none, some 0] ∧
        graph.Unrepeated ∧ (∀ run other, runEffect run 0 { graph } = runEffect other 0 { graph }) ∧
        ∃ effect, graph.effect? 2 = some effect ∧
          ∀ run, runEffect run 2 { graph } = runBody run 2 effect { graph }) := by
  have panics : ∀ activity : Activity, Balances ((fun _ => throwThe Stop (.panicked none) : Runner) activity) :=
    fun _ world => .refl world
  refine ⟨stack_balanced_unrepeated.1 _ panics, (stack_balanced_unrepeated.2.2.2 panickingWrites).2, ?_⟩
  have path : Graph.Path {} nestedFrames (Graph.replay nestedFrames) :=
    Graph.path_replay nestedFrames (by decide)
  have stack : (Graph.replay nestedFrames).stack = [none, some 1, none, some 0] := by decide
  obtain ⟨unrepeated, effects⟩ :=
    stack_balanced_unrepeated.2.2.1 { graph := Graph.replay nestedFrames } ⟨_, path⟩
  obtain ⟨effect, found⟩ := Option.isSome_iff_exists.mp
    (show ((Graph.replay nestedFrames).effect? 2).isSome = true by decide)
  have lasting : effect.disposed = false := by
    have lasts : ((Graph.replay nestedFrames).effect? 2).map Effect.disposed = some false := by decide
    rw [found] at lasts
    exact Option.some.inj lasts
  refine ⟨nestedFrames, _, path, stack, unrepeated, ?_, effect, found, fun run => ?_⟩
  · exact (effects 0).1 (by rw [stack]; decide)
  · exact ((effects 2).2 effect found lasting (by rw [stack]; decide) run).1

end LiveMarkup
