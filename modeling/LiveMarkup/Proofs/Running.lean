import LiveMarkup.Proofs.Lawful

/-
This file shows that scripts, and all other code of a world, follow each conduct that the single
operations follow.
-/

namespace LiveMarkup.Lawful

open Live

variable {conduct : Conduct} {run : Runner} {world : World}

theorem createStateFrom (lawful : Lawful conduct run) (initial : Value) :
    Follows conduct (Live.createStateFrom initial) world := by
  cases initial with
  | object fields => exact lawful.createsState fields world
  | _ => exact Follows.fails _

/-- A state that is made gets a name. -/
theorem makesState (lawful : Lawful conduct run) (name : String) {action : Live TargetId}
    (made : Follows conduct action world) :
    Follows conduct (do Live.nameState name (← action); pure Value.null) world :=
  made.bind fun _ _ _ => (lawful.nameState name _).bind fun _ _ _ => Follows.pure _

theorem performState (lawful : Lawful conduct run) (command : StateCommand) :
    Follows conduct (Live.performState run command) world := by
  cases command with
  | create name initial => exact lawful.makesState name (lawful.createStateFrom initial)
  | createEmpty name => exact lawful.makesState name (lawful.createsState [] world)
  | createFrom name data => exact lawful.makesState name (lawful.createStateFrom data)
  | createForm name title count => exact lawful.makesState name (lawful.createsState _ world)
  | «share» name state => exact lawful.makesState name (lawful.stateNamed state)
  | drop name =>
      exact Follows.asks ((lawful.modifyNames (.of_eq rfl rfl rfl)).bind
        fun _ _ _ => Follows.pure _)
  | set state key value =>
      exact lawful.onState state fun id after _ =>
        (lawful.writes id key value after).bind fun _ _ _ => Follows.pure _
  | preset state key value =>
      exact lawful.onState state fun id after _ =>
        (lawful.presets id key value after).bind fun _ _ _ => Follows.pure _
  | increase state key step =>
      exact lawful.onState state fun id _ _ =>
        (lawful.updateValue id key _).bind fun _ _ _ => Follows.pure _
  | setEvaluated state key source =>
      exact lawful.onState state fun id _ ready =>
        (lawful.evaluateStrictly ready source).bind fun value after _ =>
          (lawful.writes id key value after).bind fun _ _ _ => Follows.pure _
  | constantMethod state name value =>
      exact lawful.onState state fun id after _ =>
        (lawful.addsMethod id name _ after).bind fun _ _ _ => Follows.pure _
  | _ => exact lawful.readsState (fun _ : false = false => lawful.callMethod) _ rfl

theorem performEffect (lawful : Lawful conduct run) (command : EffectCommand) :
    Follows conduct (Live.performEffect run command) world := by
  cases command with
  | run effect =>
      exact lawful.runsEffect effect world
  | dispose effect => exact lawful.disposes effect world
  | drop effect =>
      refine Follows.asks ((lawful.modifyNames ⟨?_, ?_, ?_⟩).bind fun _ _ _ => Follows.pure _)
      · exact fun entry member => ⟨entry, (List.mem_filter.mp member).1, rfl⟩
      · exact fun entry member _ listed => ⟨entry, member, listed⟩
      · exact fun entry member => ⟨entry, member, rfl⟩
  | disposeActive => exact lawful.disposesActive world
  | createTarget name =>
      exact (Follows.modifiesGet (lawful.addsTarget world)).bind fun _ _ _ =>
        (lawful.modifyNames (.of_eq rfl rfl rfl)).bind
          fun _ _ _ => Follows.pure _
  | trigger target key =>
      exact (Plain.targetNamed target).bind fun id after _ =>
        (lawful.triggers id key after).bind fun _ _ _ => Follows.pure _
  | release target =>
      exact (Plain.targetNamed target).bind fun id after _ =>
        (lawful.releases id after).bind fun _ _ _ => Follows.pure _
  | _ => exact lawful.readsEffect _ rfl

theorem changeForest (node : String) {change : Forest Handler → NodeId → Forest Handler}
    (changed : ∀ id (world : World),
      conduct.calm world { world with forest := change world.forest id }) :
    Follows conduct (Live.changeForest node change) world :=
  (Plain.nodeNamed node).bind fun id after _ =>
    (Follows.modifies (changed id after)).bind fun _ _ _ => Follows.pure _

theorem performNode (lawful : Lawful conduct run) (command : NodeCommand) :
    Follows conduct (Live.performNode run command) world := by
  cases command with
  | create name kind text =>
      exact (Follows.modifiesGet (lawful.createsNode _ world)).bind fun _ _ _ =>
        lawful.nameFound name _
  | parse name source =>
      refine (lawful.parsesTemplate source world).bind fun parsed after _ => ?_
      split
      · exact lawful.nameFound name _
      · exact Follows.pure _
  | append parent child => exact lawful.edits _ world rfl
  | detach node => exact lawful.edits _ world rfl
  | clear node => exact lawful.edits _ world rfl
  | setAttribute node name value => exact lawful.edits _ world rfl
  | removeAttribute node name => exact lawful.edits _ world rfl
  | setText node text => exact lawful.edits _ world rfl
  | setValue node value => exact changeForest node fun id after => lawful.setsValue id value after
  | dispatch node kind =>
      exact (Plain.nodeNamed node).bind fun id _ _ =>
        (lawful.dispatch kind id).bind fun _ _ _ => Follows.pure _
  | input node value =>
      exact (Plain.nodeNamed node).bind fun id _ _ =>
        (lawful.inputValue id value).bind fun _ _ _ => Follows.pure _
  | click node =>
      exact (Plain.nodeNamed node).bind fun id _ _ =>
        (lawful.click id).bind fun _ _ _ => Follows.pure _
  | _ => exact lawful.readsNode _ rfl

theorem performHost (lawful : Lawful conduct run) (command : HostCommand) :
    Follows conduct (Live.performHost run command) world := by
  cases command with
  | bind name node state => exact lawful.binds name node state world
  | disposeBindings name => exact lawful.disposesBindings name world
  | dropBindings name =>
      refine Follows.asks ((lawful.modifyNames ⟨?_, ?_, ?_⟩).bind fun _ _ _ => Follows.pure _)
      · exact fun entry member => ⟨entry, member, rfl⟩
      · exact fun entry member _ listed => ⟨entry, (List.mem_filter.mp member).1, listed⟩
      · exact fun entry member => ⟨entry, member, rfl⟩
  | createEmitter name => exact (lawful.nameEmitter name _).bind fun _ _ _ => Follows.pure _
  | copyEmitter name emitter =>
      exact (Plain.emitterNamed emitter).bind fun _ _ _ =>
        (lawful.nameEmitter name _).bind fun _ _ _ => Follows.pure _
  | emit emitter kind =>
      exact (Plain.emitterNamed emitter).bind fun _ _ _ =>
        (lawful.emitHooks _ kind).bind fun _ _ _ => Follows.pure _
  | mount host =>
      exact (lawful.hostNamed host).bind fun id after outcome =>
        (lawful.mounts id after (finds_of_hostNamed outcome)).bind fun _ _ _ => Follows.pure _
  | render host =>
      exact (lawful.hostNamed host).bind fun id after outcome =>
        (lawful.renders id after (finds_of_hostNamed outcome)).bind fun _ _ _ => Follows.pure _
  | destroy host =>
      exact (lawful.hostNamed host).bind fun id after _ =>
        (lawful.destroys id after).bind fun _ _ _ => Follows.pure _
  | setTemplate host template =>
      exact (lawful.hostNamed host).bind fun id after _ =>
        (Follows.modifies (lawful.changesTemplate id template after)).bind fun _ _ _ =>
          Follows.pure _
  | drop host =>
      refine Follows.asks ((lawful.modifyNames ⟨?_, ?_, ?_⟩).bind fun _ _ _ => Follows.pure _)
      · exact fun entry member => ⟨entry, member, rfl⟩
      · exact fun entry member _ listed => ⟨entry, member, listed⟩
      · exact fun entry member => ⟨entry, (List.mem_filter.mp member).1, rfl⟩
  | _ => exact lawful.readsHost _ rfl

theorem registerHook (lawful : Lawful conduct run) (owner : String) (kind : HookKind)
    (body : Script) : Follows conduct (Live.registerHook owner kind body) world := by
  refine Follows.asks ?_
  split
  · exact (Follows.modifies (lawful.hooks _ kind body world)).bind fun _ _ _ => Follows.pure _
  · exact (Plain.emitterNamed owner).bind fun _ _ _ =>
      (lawful.nameEmitter owner _).bind fun _ _ _ => Follows.pure _

mutual

/-- The cases are the commands. Those that contain scripts follow by induction. -/
theorem perform (lawful : Lawful conduct run) (arguments : List Value) (world : World) :
    ∀ command : Command, Follows conduct (Live.perform run arguments command) world
  | .log value => Follows.pure _
  | .value value => Follows.pure _
  | .argumentAt position => Follows.pure _
  | .arguments => Follows.pure _
  | .sum => Follows.raises _
  | .fail error => Follows.fails _
  | .panic payload => Follows.stops (lawful.breaks (conduct.refl world)) _
  | .branch state key yes no =>
      (lawful.isTruthyAt state key).bind fun truth after _ => by
        split
        · exact performAll lawful arguments .null after yes
        · exact performAll lawful arguments .null after no
  | .cycle bodies => Follows.asks (performOne lawful arguments world _ bodies)
  | .once tag body => Follows.asks (by
      split
      · exact Follows.pure _
      · exact (Follows.modifies (lawful.meets tag world)).bind fun _ after _ =>
          performAll lawful arguments .null after body)
  | .untracked body => lawful.untracks _ world (performAll lawful arguments .null _ body)
  | .tell level text => (lawful.note _).bind fun _ _ _ => Follows.pure _
  | .tellValue level text state key =>
      lawful.onState state fun id _ _ => (Plain.peekValue id key).bind fun _ _ _ =>
        (lawful.note _).bind fun _ _ _ => Follows.pure _
  | .state command => lawful.performState command
  | .method state name body =>
      lawful.onState state fun id after _ =>
        (lawful.addsMethod id name _ after).bind fun _ _ _ => Follows.pure _
  | .effect command => lawful.performEffect command
  | .createEffect name body options => lawful.createsEffect name body options world
  | .node command => lawful.performNode command
  | .listen node kind body =>
      changeForest node fun id after => lawful.listens id kind (.script body) after
  | .host command => lawful.performHost command
  | .onHook owner kind body => lawful.registerHook owner kind body
  | .createHost document component => lawful.createsHost document component world
  | .inspect kind name => lawful.inspects kind name

theorem performAll (lawful : Lawful conduct run) (arguments : List Value) (last : Value)
    (world : World) :
    ∀ script : Script, Follows conduct (Live.performAll run arguments last script) world
  | [] => Follows.pure _
  | command :: rest =>
      (lawful.recorded _ _ (perform lawful arguments world command)).bind fun value after _ =>
        performAll lawful arguments value after rest

theorem performOne (lawful : Lawful conduct run) (arguments : List Value) (world : World)
    (place : Nat) :
    ∀ scripts : List Script, Follows conduct (Live.performOne run arguments place scripts) world
  | [] => by
      cases place <;> exact Follows.pure _
  | body :: rest => by
      cases place with
      | zero => exact performAll lawful arguments .null world body
      | succ place => exact performOne lawful arguments world place rest

end

end LiveMarkup.Lawful
