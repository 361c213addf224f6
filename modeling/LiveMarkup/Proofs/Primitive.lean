import LiveMarkup.Proofs.Edits
import LiveMarkup.Proofs.Lawful

/-
This file reduces the operations of scripts further, to changes of one part of the world. Some hosts
may be set apart, and what is particular to them is left open.
-/

namespace LiveMarkup

namespace World

/-- This is the world with a new effect, which is numbered like the size of the graph before. -/
def withEffect (world : World) (label : String) (task : Task) (captures : List TargetId) : World :=
  { world with graph := (world.graph.create label task captures).2 }

def withNames (world : World) (change : Names → Names) : World :=
  { world with names := change world.names }

/-- This is the world with a new host, which is numbered like the size of the hosts before. -/
def withHost (world : World) (component : Component Script) (state : TargetId) (container : NodeId) :
    World :=
  { world with hosts := world.hosts.push { component, state, container, hooks := component.hooks } }

def HasTask (world : World) (id : EffectId) (task : Task) : Prop :=
  ∃ effect, world.graph.effect? id = some effect ∧ effect.task = task

theorem hasTask_withEffect (world : World) (label : String) (task : Task) (captures : List TargetId) :
    (world.withEffect label task captures).HasTask world.graph.effects.size task :=
  ⟨_, Array.getElem?_push_size, rfl⟩

/-- Scripts can run effects that have names, and code of the library those that it makes. -/
def MayRun (world : World) (id : EffectId) : Prop :=
  (∃ entry ∈ world.names.effects, entry.2 = id) ∨
    ∃ task, (∀ host, task ≠ .render host) ∧ world.HasTask id task

/-- Scripts can dispose effects that have names or are part of named bindings, and the active one. -/
def Commands (world : World) (id : EffectId) : Prop :=
  (∃ entry ∈ world.names.effects, entry.2 = id) ∨
    (∃ entry ∈ world.names.bindings, id ∈ entry.2.effects) ∨ world.graph.active? = some id

end World

namespace Conduct

variable {conduct : Conduct}

open Live in
/-- A host enters as the conduct demands, with a container that was found earlier, and is housed then. -/
def Enters (conduct : Conduct) (run : Runner) : Prop :=
  ∀ component state container origin world, conduct.calm origin world → container < origin.forest.size →
    conduct.ready state world → conduct.Ends origin (enterHost run component state container world) ∧
      ∀ id after, enterHost run component state container world = .ok id after → conduct.housed id after

/-- An effect was made for a task between two worlds, with calm code before and after. -/
def Makes (conduct : Conduct) (task : Task) (origin : World) (id : EffectId) (world : World) : Prop :=
  ∃ before label captures, conduct.calm origin before ∧ id = before.graph.effects.size ∧
    conduct.calm (before.withEffect label task captures) world

/-- An effect was made between two worlds, and does not render a host. -/
def Begets (conduct : Conduct) (origin : World) (id : EffectId) (world : World) : Prop :=
  ∃ task, (∀ host, task ≠ .render host) ∧ conduct.Makes task origin id world

variable {first second third : World} {id : EffectId} {task : Task}

namespace Makes

theorem imp {weaker : Conduct} (makes : conduct.Makes task first id second)
    (implies : ∀ {before after}, conduct.calm before after → weaker.calm before after) :
    weaker.Makes task first id second := by
  obtain ⟨before, label, captures, earlier, number, since⟩ := makes
  exact ⟨before, label, captures, implies earlier, number, implies since⟩

theorem later (makes : conduct.Makes task first id second) (calm : conduct.calm second third) :
    conduct.Makes task first id third := by
  obtain ⟨before, label, captures, earlier, number, since⟩ := makes
  exact ⟨before, label, captures, earlier, number, conduct.trans since calm⟩

theorem earlier (calm : conduct.calm first second) (makes : conduct.Makes task second id third) :
    conduct.Makes task first id third := by
  obtain ⟨before, label, captures, since, number, later⟩ := makes
  exact ⟨before, label, captures, conduct.trans calm since, number, later⟩

end Makes

namespace Begets

theorem made (begets : conduct.Begets first id second) : ∃ task, conduct.Makes task first id second :=
  Exists.imp (fun _ => And.right) begets

theorem imp {weaker : Conduct} (begets : conduct.Begets first id second)
    (implies : ∀ {before after}, conduct.calm before after → weaker.calm before after) :
    weaker.Begets first id second :=
  Exists.imp (fun _ => And.imp_right fun makes => makes.imp implies) begets

theorem later (begets : conduct.Begets first id second) (calm : conduct.calm second third) :
    conduct.Begets first id third :=
  Exists.imp (fun _ => And.imp_right fun makes => makes.later calm) begets

theorem earlier (calm : conduct.calm first second) (begets : conduct.Begets second id third) :
    conduct.Begets first id third :=
  Exists.imp (fun _ => And.imp_right fun makes => makes.earlier calm) begets

end Begets

end Conduct

open Live in
/-- These are changes of one part of the world, except where several parts change together. What hosts do
is left open. -/
structure Elementary (conduct : Conduct) (run : Runner) : Prop extends Basic conduct run where
  collects : ∀ world : World, conduct.calm world world.collect
  addsTarget : ∀ (store : Option Store) (world : World), store.all Store.alive = true →
    conduct.calm world (world.addTarget store).2
  presets : ∀ state key value world, Follows conduct (presetValue state key value) world
  writes : ∀ state key value world, Follows conduct (writeValue run state key value) world
  addsMethod : ∀ state name method world, Follows conduct (addMethod state name method) world
  starts : ∀ label task captures (world : World), (∀ host, task ≠ .render host) →
    conduct.calm world (world.withEffect label task captures)
  runsEffect : ∀ id (world : World), world.MayRun id → Follows conduct (runEffect run id) world
  triggers : ∀ target name world, Follows conduct (trigger run target name) world
  releases : ∀ target world, Follows conduct (releaseTarget target) world
  disposes : ∀ id origin world, conduct.calm origin world → origin.Commands id →
    conduct.calm origin (world.disposeEffect id)
  namesEffect : ∀ name id origin world, conduct.calm origin world →
    conduct.Begets origin id world → conduct.calm origin
      (world.withNames fun names => { names with effects := names.effects.put name id })
  namesBindings : ∀ name (bindings : Bindings) origin world, conduct.calm origin world →
    (∀ id ∈ bindings.effects, conduct.Begets origin id world) → conduct.calm origin
      (world.withNames fun names => { names with bindings := names.bindings.put name bindings })
  createsNode : ∀ content (world : World),
    conduct.calm world { world with forest := (world.forest.create content).2 }
  plants : ∀ trees (world : World),
    conduct.calm world { world with forest := (world.forest.plantFragment trees).2 }
  setsValue : ∀ node value (world : World),
    conduct.calm world { world with forest := world.forest.setValue node value }
  listens : ∀ node kind handler (world : World),
    conduct.calm world { world with forest := world.forest.listen node kind handler }
  edits : conduct.Edits
  shows : ∀ node text world, Follows conduct (showAt node text) world
  changesTemplate : ∀ id template (world : World), conduct.calm world
    (world.modifyHost id fun host => { host with component := { host.component with template } })
  hooks : ∀ id kind body (world : World), conduct.calm world
    (world.modifyHost id fun host => { host with hooks := host.hooks ++ [(kind, body)] })

open Live in
/-- What hosts do is made of such changes, except for hosts of one's own. How hosts enter is left open. -/
structure Hosting (conduct : Conduct) (run : Runner) (own : HostId → Prop) : Prop
    extends Elementary conduct run where
  tells : ∀ id milestone (world : World), ¬ own id → conduct.calm world (world.tell id milestone)
  mounts : ∀ id (world : World), ¬ own id →
    conduct.calm world (world.modifyHost id fun host => { host with mounted := true })
  templates : ∀ id template (world : World), ¬ own id →
    conduct.calm world (world.attest (.parsed id template))
  dropsContent : ∀ id world, ¬ own id → Follows conduct (dropBindings id) world
  installs : ∀ id host bindings fragment origin world, ¬ own id → conduct.calm origin world →
    (∀ effect ∈ bindings.effects, conduct.Begets origin effect world) →
      conduct.Ends origin (installContent id host bindings fragment world)
  removes : ∀ id host world, ¬ own id → Follows conduct (removeContent id host) world
  rendersOwn : ∀ id (world : World), own id → world.Finds id →
    Follows conduct (renderAsked run id) world
  mountsOwn : ∀ id (world : World), own id → world.Finds id →
    Follows conduct (mountHost run id) world
  rerendersOwn : ∀ id world, own id → conduct.fits (.task (.render id)) world →
    Follows conduct (rerender run id) world
  destroysOwn : ∀ id world, own id → Follows conduct (destroyHost run id) world

open Live in
/-- A host is made with an effect that renders it. -/
structure Primitive (conduct : Conduct) (run : Runner) (own : HostId → Prop) : Prop
    extends Hosting conduct run own where
  addsHost : ∀ component state container origin world, conduct.calm origin world →
    container < origin.forest.size → conduct.ready state world →
      conduct.calm origin (world.withHost component state container)
  startsRenderer : ∀ label id (world : World),
    conduct.calm world (world.withEffect label (.render id) [])
  runsRenderer : ∀ id world, Follows conduct (runEffect run id) world
  rendersBy : ∀ id effect origin world, conduct.calm origin world →
    conduct.Makes (.render id) origin effect world → conduct.calm origin
      (world.modifyHost id fun host => { host with renderEffect := some effect })
  houses : ∀ id world, conduct.housed id world := by exact fun _ _ => trivial
  namesHost : ∀ name id (world : World), conduct.calm world
    (world.withNames fun names => { names with hosts := names.hosts.put name id })

namespace Plain

open Live

variable {conduct : Conduct} {run : Runner} {world : World}

/-- A registered effect has its task when it runs. -/
theorem hasTask_registered {label : String} {task : Task} {captures : List TargetId} {id : EffectId}
    {made held noted : World} (makes : Live.createEffect label task captures world = .ok id made)
    (holds : Live.hold (.effect id) made = .ok () held)
    (notes : Live.note (.effectRegistered (World.number id) label) held = .ok () noted) :
    noted.HasTask id task := by
  cases makes
  cases notes
  cases holds
  dsimp only
  split <;> exact world.hasTask_withEffect label task captures

theorem registerEffect (plain : Plain conduct) {label : String} {task : Task} {captures : List TargetId}
    (starts : conduct.calm world (world.withEffect label task captures))
    (runs : ∀ id after, after.HasTask id task → Follows conduct (Live.runEffect run id) after) :
    Follows conduct (Live.registerEffect run label task captures) world := by
  have created : Follows conduct (Live.createEffect label task captures) world := starts
  exact created.bind fun id made makes => (plain.holds _ made).bind fun _ held holds =>
    (plain.note _).bind fun _ noted notes =>
      (runs id noted (hasTask_registered makes holds notes)).bind fun _ _ _ => Follows.pure _

/-- A registered effect is new. -/
theorem makes_registerEffect (plain : Plain conduct) {label : String} {task : Task}
    {captures : List TargetId} {id : EffectId} {after : World}
    (runs : ∀ id after, after.HasTask id task → Follows conduct (Live.runEffect run id) after)
    (outcome : Live.registerEffect run label task captures world = .ok id after) :
    conduct.Makes task world id after := by
  unfold Live.registerEffect at outcome
  obtain ⟨made, created, creates, outcome⟩ := bind_eq_ok.mp outcome
  obtain ⟨_, held, holds, outcome⟩ := bind_eq_ok.mp outcome
  obtain ⟨_, noted, notes, outcome⟩ := bind_eq_ok.mp outcome
  obtain ⟨_, finished, ran, outcome⟩ := bind_eq_ok.mp outcome
  cases outcome
  have has := hasTask_registered creates holds notes
  cases creates
  refine ⟨world, label, captures, conduct.refl world, rfl, ?_⟩
  exact conduct.trans ((plain.holds _ _).calm holds)
    (conduct.trans ((plain.note _).calm notes) ((runs _ _ has).calm ran))

end Plain

namespace Elementary

open Live

variable {conduct : Conduct} {run : Runner} {world : World}

/-! States. -/

theorem createState (elementary : Elementary conduct run) (values : Dictionary Value)
    (world : World) : Gives conduct conduct.ready (Live.createState values) world := by
  unfold Live.createState
  have makes : ∀ after, Gives conduct conduct.ready (do
      let id ← modifyGet fun world =>
        world.addTarget (some { values := values.erase Live.reservedKey })
      hold (.state id)
      pure id) after := by
    intro after
    have added : Gives conduct (fun id made => made.isAlive id = true) (modifyGet fun world =>
        world.addTarget (some { values := values.erase Live.reservedKey })) after := by
      refine ⟨Follows.modifiesGet (elementary.addsTarget _ after rfl), fun _ _ outcome => ?_⟩
      cases outcome
      simp [World.isAlive, World.store?]
    exact added.bind fun id made _ alive =>
      Gives.bind ⟨elementary.holds _ made, fun _ _ holds => elementary.ready_of_hold alive holds⟩
        fun _ _ _ ready => Gives.pure ready
  dsimp only
  split
  · exact Gives.follows_bind (elementary.note _) fun _ after _ => makes after
  · exact makes world

theorem createStateFrom (elementary : Elementary conduct run) (initial : Value) (world : World) :
    Gives conduct conduct.ready (Live.createStateFrom initial) world := by
  cases initial with
  | object fields => exact elementary.createState fields world
  | _ => exact ⟨Follows.fails _, fun _ _ impossible => by cases impossible⟩

/-! Effects. -/

variable {task : Task}

theorem createEffect (elementary : Elementary conduct run) (label : String)
    (other : ∀ host, task ≠ .render host) (captures : List TargetId) (world : World) :
    Follows conduct (Live.createEffect label task captures) world :=
  Follows.modifiesGet (elementary.starts label task captures world other)

theorem runsMade (elementary : Elementary conduct run) (other : ∀ host, task ≠ .render host)
    (id : EffectId) (after : World) (has : after.HasTask id task) :
    Follows conduct (Live.runEffect run id) after :=
  elementary.runsEffect id after (Or.inr ⟨task, other, has⟩)

theorem registerEffect (elementary : Elementary conduct run) (label : String)
    (other : ∀ host, task ≠ .render host) (captures : List TargetId) (world : World) :
    Follows conduct (Live.registerEffect run label task captures) world :=
  elementary.toPlain.registerEffect (elementary.starts label task captures world other)
    (elementary.runsMade other)

theorem begets_registerEffect (elementary : Elementary conduct run) {label : String}
    (other : ∀ host, task ≠ .render host) {captures : List TargetId} {world after : World} {id : EffectId}
    (outcome : Live.registerEffect run label task captures world = .ok id after) :
    conduct.Begets world id after :=
  ⟨task, other, elementary.toPlain.makes_registerEffect (elementary.runsMade other) outcome⟩

/-- The states that an effect captures are looked up first. -/
theorem mapM_stateNamed (elementary : Elementary conduct run) (captures : List String)
    (world : World) : Follows conduct (captures.mapM Live.stateNamed) world := by
  induction captures generalizing world with
  | nil => exact Follows.pure _
  | cons name rest inductionHypothesis =>
      rw [List.mapM_cons]
      exact (elementary.stateNamed name).bind fun _ after _ =>
        (inductionHypothesis after).bind fun _ _ _ => Follows.pure _

theorem makeEffect (elementary : Elementary conduct run) (label : Option String)
    (isLazy : Bool) (other : ∀ host, task ≠ .render host) (captures : List TargetId) (world : World) :
    Follows conduct (Live.makeEffect run label isLazy task captures) world := by
  unfold Live.makeEffect
  split
  · exact (elementary.createEffect _ other captures world).bind fun id created _ =>
      (elementary.holds _ created).bind fun _ _ _ => Follows.pure _
  · exact elementary.registerEffect _ other captures world

theorem begets_makeEffect (elementary : Elementary conduct run) {label : Option String}
    {isLazy : Bool} (other : ∀ host, task ≠ .render host) {captures : List TargetId}
    {world after : World} {id : EffectId}
    (outcome : Live.makeEffect run label isLazy task captures world = .ok id after) :
    conduct.Begets world id after := by
  unfold Live.makeEffect at outcome
  split at outcome
  · obtain ⟨made, created, creates, outcome⟩ := bind_eq_ok.mp outcome
    cases creates
    obtain ⟨_, held, holds, outcome⟩ := bind_eq_ok.mp outcome
    cases outcome
    exact ⟨task, other, world, _, captures, conduct.refl world, rfl, (elementary.holds _ _).calm holds⟩
  · exact elementary.begets_registerEffect other outcome

theorem performCreateEffect (elementary : Elementary conduct run) (name : String)
    (body : Script) (options : EffectOptions) (world : World) :
    Follows conduct (Live.performCreateEffect run name body options) world := by
  refine (elementary.mapM_stateNamed options.captures world).bind fun captures looked _ => ?_
  have other : ∀ host, Task.script name body ≠ .render host := fun _ impossible => by cases impossible
  have made := elementary.makeEffect options.label options.isLazy other captures looked
  refine ends_bind made fun id after outcome => ?_
  exact elementary.namesEffect name id looked after (made.calm outcome)
    (elementary.begets_makeEffect other outcome)

/-- An effect that is found by its name may be run. -/
theorem runsNamed (elementary : Elementary conduct run) (name : String) (world : World) :
    Follows conduct (Live.performEffect run (.run name)) world := by
  refine (elementary.effectNamed name).bind fun id after outcome => ?_
  obtain ⟨named, same⟩ := names_of_effectNamed outcome
  exact (elementary.runsEffect id after (Or.inl (same ▸ named))).bind fun _ _ _ => Follows.pure _

/-! Disposals. -/

theorem disposeEffect (elementary : Elementary conduct run) {id : EffectId} {origin : World}
    (calm : conduct.calm origin world) (commands : origin.Commands id) :
    conduct.calm origin (world.disposeEffect id).collect :=
  conduct.trans (elementary.disposes id origin world calm commands) (elementary.collects _)

theorem disposeBindings (elementary : Elementary conduct run) {bindings : Bindings}
    {origin : World} (calm : conduct.calm origin world)
    (commands : ∀ id ∈ bindings.effects, origin.Commands id) :
    conduct.calm origin (world.disposeBindings bindings).collect := by
  have each : ∀ (ids : List EffectId) (current : World), (∀ id ∈ ids, origin.Commands id) →
      conduct.calm origin current →
        conduct.calm origin (ids.foldl World.disposeEffect current) := by
    intro ids
    induction ids with
    | nil => exact fun _ _ reached => reached
    | cons id rest inductionHypothesis =>
        intro current commanded reached
        exact inductionHypothesis _ (fun other member => commanded other (List.mem_cons_of_mem _ member))
          (elementary.disposes id origin current reached (commanded id List.mem_cons_self))
  refine conduct.trans (conduct.trans (each bindings.effects world commands calm) ?_)
    (elementary.collects _)
  unfold World.disposeBindings
  dsimp only
  split
  · exact conduct.refl _
  · exact elementary.notes _ _

/-- An effect that has a name may be disposed. -/
theorem disposesNamed (elementary : Elementary conduct run) (name : String) (world : World) :
    Follows conduct (Live.performEffect run (.dispose name)) world := by
  show conduct.Ends world (((effectNamed name) >>= fun id =>
    (do Live.disposeEffect id; pure Value.null)) world)
  refine ends_bind (elementary.effectNamed name) fun id after outcome => ?_
  have calm := (elementary.effectNamed name).calm outcome
  exact elementary.disposeEffect calm (Or.inl (names_of_effectNamed outcome).1)

theorem disposesActive (elementary : Elementary conduct run) (world : World) :
    Follows conduct (Live.performEffect run .disposeActive) world := by
  refine Follows.asks ?_
  split
  · rename_i id active
    have disposed : conduct.calm world (world.disposeEffect id).collect :=
      elementary.disposeEffect (conduct.refl world) (Or.inr (Or.inr active))
    exact (Follows.modifies disposed).bind fun _ _ _ => Follows.pure _
  · exact Follows.pure _

/-- The name is emptied before the bindings are disposed. -/
theorem disposesBindings (elementary : Elementary conduct run) (name : String) (world : World) :
    Follows conduct (Live.performHost run (.disposeBindings name)) world := by
  show conduct.Ends world (((bindingsNamed name) >>= fun bindings =>
    (do nameBindings name {}; Live.disposeBindings bindings; pure Value.null)) world)
  refine ends_bind (Plain.bindingsNamed name) fun bindings after outcome => ?_
  obtain ⟨_, asked, asks, looks⟩ := bind_eq_ok.mp outcome
  cases asks
  obtain ⟨⟨entry, listed, same⟩, rfl⟩ := mem_of_named looks
  have renamed : conduct.calm after
      (after.withNames fun names => { names with bindings := names.bindings.put name {} }) :=
    elementary.namesBindings name {} after after (conduct.refl after) fun _ impossible => by
      cases impossible
  exact elementary.disposeBindings renamed fun id member =>
    Or.inr (Or.inl ⟨entry, listed, same ▸ member⟩)

/-! Bindings. -/

/-- All effects of these bindings were there before, or have been made since. -/
def Grown (conduct : Conduct) (before : Bindings) (origin : World) (bindings : Bindings)
    (world : World) : Prop :=
  ∀ id ∈ bindings.effects, id ∈ before.effects ∨ conduct.Begets origin id world

theorem Grown.refl (bindings : Bindings) (origin world : World) :
    Grown conduct bindings origin bindings world := fun _ member => Or.inl member

theorem Grown.trans {first second third : World} {before middle after : Bindings}
    (earlier : Grown conduct before first middle second) (reached : conduct.calm first second)
    (later : Grown conduct middle second after third) (calm : conduct.calm second third) :
    Grown conduct before first after third := by
  intro id member
  rcases later id member with known | made
  · rcases earlier id known with old | begotten
    · exact Or.inl old
    · exact Or.inr (begotten.later calm)
  · exact Or.inr (made.earlier reached)

/-- A registered effect is added to the bindings. -/
theorem Grown.addEffect {origin world : World} {bindings : Bindings} {id : EffectId}
    (begets : conduct.Begets origin id world) :
    Grown conduct bindings origin (bindings.addEffect id) world := by
  intro other member
  rcases List.mem_append.mp member with old | new
  · exact Or.inl old
  · rw [List.mem_singleton.mp new]
    exact Or.inr begets

theorem gives_registerEffect (elementary : Elementary conduct run) (label : String)
    (other : ∀ host, task ≠ .render host) (captures : List TargetId) (world : World) :
    Gives conduct (fun id after => conduct.Begets world id after)
      (Live.registerEffect run label task captures) world :=
  ⟨elementary.registerEffect label other captures world,
    fun _ _ outcome => elementary.begets_registerEffect other outcome⟩

theorem bindInterpolation (elementary : Elementary conduct run) (state : TargetId)
    (node : NodeId) (bindings : Bindings) (world : World) :
    Gives conduct (Grown conduct bindings world)
      (Live.bindInterpolation run state node bindings) world := by
  refine Gives.asks ?_
  dsimp only
  split
  · exact (elementary.gives_registerEffect _ (fun _ impossible => by cases impossible) _ world).bind fun _ _ _ begets =>
      Gives.pure (.addEffect begets)
  · exact Gives.pure (.refl bindings world world)

theorem bindText (elementary : Elementary conduct run) (state : TargetId) (node : NodeId)
    (source : String) (bindings : Bindings) (world : World) :
    Gives conduct (Grown conduct bindings world)
      (Live.bindText run state node source bindings) world :=
  (elementary.gives_registerEffect _ (fun _ impossible => by cases impossible) _ world).bind fun _ after _ begets =>
    Gives.follows_bind (elementary.edits.dropDirective node _ after) fun _ _ calm =>
      Gives.pure (.addEffect (begets.later calm))

theorem bindModel (elementary : Elementary conduct run) (state : TargetId) (node : NodeId)
    (key : String) (bindings : Bindings) (world : World) :
    Gives conduct (Grown conduct bindings world)
      (Live.bindModel run state node key bindings) world := by
  refine Gives.asks ?_
  dsimp only
  split
  · exact (elementary.gives_registerEffect _ (fun _ impossible => by cases impossible) _ world).bind fun _ after _ begets =>
      Gives.asks (Gives.follows_bind (Follows.modifies (elementary.listens node _ _ after))
        fun _ listening heard => Gives.follows_bind (elementary.edits.dropDirective node _ listening)
          fun _ _ calm => Gives.pure (.addEffect (begets.later (conduct.trans heard calm))))
  · exact Gives.follows_bind (elementary.note _) fun _ after _ =>
      Gives.pure (.refl bindings world after)

theorem bindEvent (elementary : Elementary conduct run) (state : TargetId) (node : NodeId)
    (name kind source : String) (bindings : Bindings) (world : World) :
    Gives conduct (Grown conduct bindings world)
      (Live.bindEvent state node name kind source bindings) world := by
  unfold Live.bindEvent
  split
  · exact Gives.follows_bind (elementary.note _) fun _ after _ =>
      Gives.pure (.refl bindings world after)
  · exact Gives.follows_bind (Follows.modifies (elementary.listens node _ _ world))
      fun _ listening _ => Gives.follows_bind (elementary.edits.dropDirective node _ listening)
        fun _ after _ => Gives.pure (fun _ member => Or.inl member)

theorem bindAttribute (elementary : Elementary conduct run) (state : TargetId) (node : NodeId)
    (name source : String) (bindings : Bindings) (world : World) :
    Gives conduct (Grown conduct bindings world)
      (Live.bindAttribute run state node name source bindings) world := by
  unfold Live.bindAttribute
  split
  · exact elementary.bindText state node source bindings world
  · exact elementary.bindModel state node source bindings world
  · exact elementary.bindEvent state node name _ source bindings world
  · exact Gives.pure (.refl bindings world world)

theorem bindAttributes (elementary : Elementary conduct run) (state : TargetId) (node : NodeId)
    (attributes : List (String × String)) (bindings : Bindings) (world : World) :
    Gives conduct (Grown conduct bindings world)
      (Live.bindAttributes run state node attributes bindings) world := by
  induction attributes generalizing bindings world with
  | nil => exact Gives.pure (.refl bindings world world)
  | cons entry rest inductionHypothesis =>
      refine (elementary.bindAttribute state node entry.1 entry.2 bindings world).bind
        fun bound after reached grown => ?_
      have later := inductionHypothesis bound after
      exact ⟨later.1, fun result final outcome =>
        grown.trans reached (later.2 result final outcome) (later.1.calm outcome)⟩

theorem bindNode (elementary : Elementary conduct run) (state : TargetId) (node : NodeId)
    (bindings : Bindings) (world : World) :
    Gives conduct (fun result after => Grown conduct bindings world result.1 after)
      (Live.bindNode run state node bindings) world := by
  refine Gives.asks ?_
  dsimp only
  split
  · exact (elementary.bindInterpolation state node bindings world).bind fun _ _ _ grown =>
      Gives.pure grown
  · exact (elementary.bindAttributes state node _ bindings world).bind fun _ _ _ grown =>
      Gives.pure grown
  · exact Gives.pure (.refl bindings world world)

/-- The walk goes on from wherever the forest leads. -/
theorem bindFrom (elementary : Elementary conduct run) (state : TargetId) (root : NodeId)
    (limit : Nat) (place : Option NodeId) (bindings : Bindings) (world : World) :
    Gives conduct (Grown conduct bindings world)
      (Live.bindFrom run state root limit place bindings) world := by
  induction limit generalizing place bindings world with
  | zero =>
      cases place with
      | none => exact Gives.pure (.refl bindings world world)
      | some node => exact ⟨Follows.stops (elementary.breaks (conduct.refl world)) _, fun _ _ outcome => by cases outcome⟩
  | succ limit inductionHypothesis =>
      cases place with
      | none => exact Gives.pure (.refl bindings world world)
      | some node =>
          refine (elementary.bindNode state node bindings world).bind
            fun result after reached grown => Gives.asks ?_
          have later := inductionHypothesis (if result.2 then after.forest.nextSkipping? root node
            else after.forest.next? root node) result.1 after
          exact ⟨later.1, fun final last outcome =>
            grown.trans reached (later.2 final last outcome) (later.1.calm outcome)⟩

/-- All effects of new bindings are new. -/
theorem bind (elementary : Elementary conduct run) (root : NodeId) (state : TargetId)
    (world : World) :
    Gives conduct (fun bindings after => ∀ id ∈ bindings.effects, conduct.Begets world id after)
      (Live.bind run root state) world := by
  refine Gives.asks ((elementary.bindFrom state root _ _ _ world).bind
    fun bindings after _ grown => Gives.follows_bind (elementary.note _) fun _ _ calm =>
      Gives.pure fun id member => ?_)
  rcases grown id member with old | begets
  · cases old
  · exact begets.later calm

theorem performBind (elementary : Elementary conduct run) (name node state : String)
    (world : World) : Follows conduct (Live.performHost run (.bind name node state)) world := by
  refine (Plain.nodeNamed node).bind fun root _ _ =>
    (elementary.stateNamed state).bind fun id looked _ => ?_
  have bound := elementary.bind root id looked
  refine ends_bind bound.1 fun bindings after outcome => ?_
  exact elementary.namesBindings name bindings looked after (bound.1.calm outcome)
    (bound.2 bindings after outcome)

/-! Hosts. -/

theorem parseTemplate (elementary : Elementary conduct run) (source : String) (world : World) :
    Follows conduct (Live.parseTemplate source) world := by
  refine (Follows.modifiesGet (elementary.plants _ world)).bind fun root after _ => ?_
  split
  · exact Follows.pure _
  · split
    · exact (elementary.note _).bind fun _ _ _ => Follows.pure _
    · exact Follows.pure _

theorem addMethods (elementary : Elementary conduct run) (state : TargetId)
    (methods : List (String × Script)) (world : World) :
    Follows conduct (methods.forM fun entry =>
      Live.addMethod state entry.1 (.script entry.2)) world := by
  induction methods generalizing world with
  | nil => exact Follows.pure _
  | cons entry rest inductionHypothesis =>
      exact (elementary.addsMethod state entry.1 _ world).bind fun _ after _ =>
        inductionHypothesis after

theorem createComponentState (elementary : Elementary conduct run)
    (component : Component Script) (world : World) :
    Gives conduct conduct.ready (Live.createComponentState component) world :=
  (Gives.catches (elementary.createStateFrom component.initial world)
      fun _ after _ => elementary.createState [] after).bind fun state made _ ready =>
    Gives.follows_bind (elementary.addMethods state component.methods made) fun _ _ extended =>
      Gives.follows_bind (elementary.modifyNames (.of_eq rfl rfl rfl)) fun _ _ named =>
        Gives.pure (conduct.lasts (conduct.trans extended named) ready)

theorem createHost (elementary : Elementary conduct run) (enters : conduct.Enters run)
    (component : Component Script) (document : NodeId) (world : World) :
    Gives conduct (fun created after => ∀ id, created = .ok id → conduct.housed id after)
      (Live.createHost run component document) world := by
  refine Gives.asks ?_
  split
  · exact Gives.pure fun _ impossible => by cases impossible
  · rename_i container found
    have stated := elementary.createComponentState component world
    have entered := fun state made outcome => enters component state container world made
      (stated.1.calm outcome) (Forest.lt_size_of_query? found) (stated.2 state made outcome)
    refine ⟨ends_bind stated.1 fun state made outcome => ends_bind (entered state made outcome).1
      fun id after enters => ?_, fun created after outcome id same => ?_⟩
    · have ends := (entered state made outcome).1
      rw [enters] at ends
      exact ends
    · obtain ⟨state, made, states, outcome⟩ := bind_eq_ok.mp outcome
      obtain ⟨_, _, enters, returns⟩ := bind_eq_ok.mp outcome
      cases returns
      cases same
      exact (entered state made states).2 id after enters

/-- The name of a host comes last. -/
theorem performCreateHost (elementary : Elementary conduct run) (enters : conduct.Enters run)
    (names : ∀ name id (world : World), conduct.housed id world → conduct.calm world
      (world.withNames fun names => { names with hosts := names.hosts.put name id }))
    (document : String) (component : Component Script) (world : World) :
    Follows conduct (Live.performCreateHost run document component) world := by
  refine (Plain.nodeNamed document).bind fun root after _ => ?_
  have creates := elementary.createHost enters component root after
  refine creates.1.bind fun created made outcome => ?_
  cases created with
  | error error => exact Follows.pure _
  | ok id =>
      refine (Follows.modifies (names component.name id made (creates.2 _ made outcome id rfl))).bind
        fun _ named _ => Follows.asks ?_
      cases named.host? id with
      | none => exact (Follows.pure _).bind fun _ _ _ => Follows.pure _
      | some host => exact (elementary.nameNode _ _).bind fun _ _ _ => Follows.pure _

end Elementary

namespace Hosting

open Live

variable {conduct : Conduct} {run : Runner} {own : HostId → Prop} {world : World}

/-- The content of a host that is not set apart is bound anew and installed. -/
theorem renderContent (hosting : Hosting conduct run own) {id : HostId} (foreign : ¬ own id)
    (host : Host) (fragment : NodeId) (world : World) :
    Follows conduct (Live.renderContent run id host fragment) world := by
  refine (Follows.modifies (hosting.templates id _ world foreign)).bind fun _ parsed _ =>
    (hosting.dropsContent id parsed foreign).bind fun _ dropped _ => ?_
  have bound := hosting.bind fragment host.state dropped
  refine ends_bind bound.1 fun bindings after outcome => ?_
  have installed := hosting.installs id host bindings fragment dropped after foreign
    (bound.1.calm outcome) (bound.2 bindings after outcome)
  refine ends_bind installed fun _ shown shows => ?_
  rw [shows] at installed
  exact Conduct.Ends.after installed (Follows.asks ((hosting.note _).bind fun _ noted _ =>
    (hosting.called (.rendered id) rfl noted).discard))

/-- A host that is not set apart needs no hold to be rendered. -/
theorem rendersForeign (hosting : Hosting conduct run own) {id : HostId} (foreign : ¬ own id)
    (world : World) : Follows conduct (Live.renderHost run id) world := by
  refine Follows.asks ?_
  split
  · exact Follows.pure _
  · refine (hosting.parseTemplate _ world).bind fun parsed after _ => ?_
    split
    · exact Follows.pure _
    · exact (hosting.renderContent foreign _ _ after).bind fun _ _ _ => Follows.pure _

theorem asksForeign (hosting : Hosting conduct run own) {id : HostId} (foreign : ¬ own id)
    (world : World) : Follows conduct (Live.renderAsked run id) world :=
  Basic.renderAsked (fun milestone after => hosting.tells id milestone after foreign)
    (fun after _ => hosting.rendersForeign foreign after) False.elim

theorem mountsForeign (hosting : Hosting conduct run own) {id : HostId} (foreign : ¬ own id)
    (world : World) : Follows conduct (Live.mountHost run id) world :=
  hosting.toBasic.mountHost (fun milestone after => hosting.tells id milestone after foreign)
    (fun after _ => hosting.rendersForeign foreign after)
    (fun after => hosting.mounts id after foreign) False.elim

theorem renderAsked (hosting : Hosting conduct run own) (id : HostId) (world : World)
    (finds : world.Finds id) : Follows conduct (Live.renderAsked run id) world := by
  by_cases apart : own id
  · exact hosting.rendersOwn id world apart finds
  · exact hosting.asksForeign apart world

theorem mountHost (hosting : Hosting conduct run own) (id : HostId) (world : World)
    (finds : world.Finds id) : Follows conduct (Live.mountHost run id) world := by
  by_cases apart : own id
  · exact hosting.mountsOwn id world apart finds
  · exact hosting.mountsForeign apart world

theorem rerender (hosting : Hosting conduct run own) (id : HostId) (world : World)
    (fits : conduct.fits (.task (.render id)) world) : Follows conduct (Live.rerender run id) world := by
  by_cases apart : own id
  · exact hosting.rerendersOwn id world apart fits
  · exact hosting.toBasic.rerender
      (fun milestone after => hosting.tells id milestone after apart)
      fun after (_ : False → .host id ∈ after.holds) => hosting.rendersForeign apart after

theorem destroyHost (hosting : Hosting conduct run own) (id : HostId) (world : World) :
    Follows conduct (Live.destroyHost run id) world := by
  by_cases apart : own id
  · exact hosting.destroysOwn id world apart
  · refine (hosting.emitsHost id (fun impossible => by cases impossible)).bind fun _ emitted _ =>
      (hosting.dropsContent id emitted apart).bind fun _ dropped _ => Follows.asks ?_
    split
    · exact Follows.pure _
    · exact (hosting.removes id _ dropped apart).bind fun _ _ _ => hosting.note _

/-- What the changes keep is kept by all operations of scripts, if it is kept when hosts enter. -/
theorem lawful (hosting : Hosting conduct run own) (enters : conduct.Enters run)
    (names : ∀ name id (world : World), conduct.housed id world → conduct.calm world
      (world.withNames fun names => { names with hosts := names.hosts.put name id })) :
    Lawful conduct run where
  toBasic := hosting.toBasic
  createsState values world := (hosting.createState values world).1
  presets := hosting.presets
  writes := hosting.writes
  addsMethod := hosting.addsMethod
  addsTarget world := hosting.addsTarget none world rfl
  createsEffect := hosting.performCreateEffect
  runsEffect := hosting.runsNamed
  triggers := hosting.triggers
  releases := hosting.releases
  disposes := hosting.disposesNamed
  disposesActive := hosting.disposesActive
  createsNode := hosting.createsNode
  parsesTemplate := hosting.parseTemplate
  setsValue := hosting.setsValue
  listens := hosting.listens
  edits := hosting.edits.performEdit run
  binds := hosting.performBind
  disposesBindings := hosting.disposesBindings
  shows := hosting.shows
  createsHost := hosting.performCreateHost enters names
  renders := hosting.renderAsked
  mounts := hosting.mountHost
  rerenders := hosting.rerender
  destroys := hosting.destroyHost
  changesTemplate := hosting.changesTemplate
  hooks := hosting.hooks

end Hosting

namespace Primitive

open Live

variable {conduct : Conduct} {run : Runner} {own : HostId → Prop} {world : World}

/-- The render effect of a host is new when the host gets it. -/
theorem enters (primitive : Primitive conduct run own) : conduct.Enters run := by
  intro component state container origin world calm known ready
  refine ⟨?_, fun id after _ => primitive.houses id after⟩
  have added := primitive.addsHost component state container origin world calm known ready
  have adds : conduct.Ends origin (Live.addHost { component, state, container, hooks := component.hooks }
    world) := added
  refine ends_bind adds fun id _ outcome => ?_
  cases outcome
  refine Conduct.Ends.after added ((primitive.holds _ _).bind fun _ _ _ =>
    (primitive.emitsHost world.hosts.size (fun impossible => by cases impossible)).bind
      fun _ announced _ => ?_)
  have runs : ∀ effect after, after.HasTask effect (.render world.hosts.size) →
      Follows conduct (Live.runEffect run effect) after :=
    fun effect after _ => primitive.runsRenderer effect after
  have registered := primitive.toPlain.registerEffect
    (primitive.startsRenderer ("render " ++ component.selector) world.hosts.size announced) runs
  refine ends_bind registered fun effect after outcome => ?_
  have rendering := primitive.rendersBy world.hosts.size effect announced after
    (registered.calm outcome) (primitive.toPlain.makes_registerEffect runs outcome)
  refine ends_bind rendering fun _ settled settles => ?_
  cases settles
  exact conduct.trans rendering (primitive.notes _ _)

theorem lawful (primitive : Primitive conduct run own) : Lawful conduct run :=
  primitive.toHosting.lawful primitive.enters fun name id world _ => primitive.namesHost name id world

end Primitive

end LiveMarkup
