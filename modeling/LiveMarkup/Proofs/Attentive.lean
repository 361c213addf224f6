import LiveMarkup.Proofs.Fruitless

/-
This file shows that no code takes a handler away from a node.
-/

namespace LiveMarkup

namespace Forest

variable {before after forest : Forest Handler} {id : NodeId}

/-- Every node keeps its handlers in their order. New handlers come behind them. -/
def Attends (before after : Forest Handler) : Prop :=
  ∀ id, before.handlersAt id <+: after.handlersAt id

theorem Attends.trans {middle : Forest Handler} (early : before.Attends middle) (late : middle.Attends after) :
    before.Attends after :=
  fun id => (early id).trans (late id)

theorem Attends.of_eq (same : after = before) : before.Attends after :=
  fun _ => same ▸ List.prefix_rfl

theorem handlersAt_of_le_size (absent : forest.size ≤ id) : forest.handlersAt id = [] := by
  unfold handlersAt
  cases found : forest.element? id with
  | none => rfl
  | some element => exact absurd (lt_size_of_element? found) (Nat.not_lt_of_le absent)

/-- Only nodes that exist have handlers. -/
theorem Attends.of_known (same : ∀ id < before.size, after.handlersAt id = before.handlersAt id) :
    before.Attends after := by
  intro id
  by_cases known : id < before.size
  · exact same id known ▸ List.prefix_rfl
  · rw [handlersAt_of_le_size (Nat.le_of_not_lt known)]
    exact List.nil_prefix

/-- What else nodes have to them makes no difference. -/
theorem Attends.of_nodes (same : ∀ id < before.size, after.node? id = before.node? id) :
    before.Attends after :=
  .of_known fun id known => handlersAt_of_content? (congrArg (Option.map Node.content) (same id known))

theorem attends_listen (forest : Forest Handler) (node : NodeId) (kind : String) (handler : Handler) :
    forest.Attends (forest.listen node kind handler) := by
  intro id
  cases found : forest.element? node with
  | none =>
      have same : forest.listen node kind handler = forest := by
        unfold listen modifyElement
        rw [found]
      exact Attends.of_eq same id
  | some element =>
      rw [handlersAt_listen found]
      exact List.prefix_append _ _

/-- An append moves nodes that may have lost their places before. -/
theorem attends_replace (forest : Forest Handler) (container fragment : NodeId) :
    forest.Attends ((forest.clear container).append container fragment) := by
  refine .of_known fun id _ => ?_
  rw [handlersAt_append, handlersAt_clear]

theorem Attends.listenersFor (attends : before.Attends after) (id : NodeId) (kind : String) :
    before.listenersFor id kind <+: after.listenersFor id kind := by
  rw [listenersFor_eq, listenersFor_eq]
  exact ((attends id).filter _).map _

end Forest

/-- Listeners are only added, by calm code as well as by code that breaks off. -/
def Conduct.attentive : Conduct :=
  .always (fun before after => before.forest.Attends after.forest) (fun _ => .of_eq rfl) Forest.Attends.trans

namespace Attentive

open Live

variable {A : Type} {run : Runner} {before after world : World}

theorem calm_of_same (same : after.forest = before.forest) : Conduct.attentive.calm before after :=
  Forest.Attends.of_eq same

theorem calm_collect (world : World) : Conduct.attentive.calm world world.collect :=
  calm_of_same (World.sweeps_collect world).forest

theorem inFrame {frame : Option EffectId} {action : Live A}
    (follows : Follows Conduct.attentive action { world with graph := world.graph.push frame }) :
    Follows Conduct.attentive (Live.inFrame frame action) world := by
  have leaves : ∀ after : World,
      Conduct.attentive.calm after { after with graph := after.graph.pop }.collect :=
    fun after => calm_of_same (World.sweeps_collect { after with graph := after.graph.pop }).forest
  exact follows.ending leaves

theorem plain : Plain Conduct.attentive where
  finishes _ _ _ := calm_of_same rfl
  notes _ _ := calm_of_same rfl
  meets _ _ := calm_of_same rfl
  parses _ _ := calm_of_same rfl
  holds _ world := by
    refine Follows.modifies (calm_of_same ?_)
    split <;> rfl
  operates _ world follows := follows.ending fun after => calm_of_same (Still.closes world.holds after)
  letsGo _ world := Follows.modifies (calm_of_same (Still.closes _ world))
  untracks _ _ follows := inFrame follows
  tracks _ _ _ _ := Follows.modifies (calm_of_same rfl)
  tracksByHand _ _ := .trackByHand (fun _ => Follows.modifies (calm_of_same rfl))
    fun _ => Follows.modifies (calm_of_same rfl)
  nodes _ _ := calm_of_same rfl

theorem runEffect (keeps : run.Keeps Conduct.attentive) (id : EffectId) (world : World) :
    Follows Conduct.attentive (Live.runEffect run id) world :=
  Follows.runEffect keeps (fun _ => calm_of_same rfl) fun _ _ follows => inFrame follows

theorem trigger (keeps : run.Keeps Conduct.attentive) (target : TargetId) (name : String) (world : World) :
    Follows Conduct.attentive (Live.trigger run target name) world :=
  plain.trigger (fun _ _ => calm_of_same rfl) (runEffect keeps) target name world

theorem dropBindings (id : HostId) (world : World) :
    Follows Conduct.attentive (Live.dropBindings id) world := by
  refine Follows.asks ?_
  split
  · exact Follows.pure _
  · rename_i host _
    have forgets : Follows Conduct.attentive (Live.modifyHost id fun host => { host with bindings := {} })
        world := Follows.modifies (calm_of_same rfl)
    refine forgets.bind fun _ after _ => Follows.modifies ?_
    exact Conduct.attentive.trans (calm_of_same (World.sweeps_disposeBindings after host.bindings).forest)
      (calm_collect _)

/-- A host puts its new content in the place of the old one. -/
theorem installContent (id : HostId) (host : Host) (bindings : Bindings) (fragment : NodeId) (world : World) :
    Follows Conduct.attentive (Live.installContent id host bindings fragment) world :=
  world.forest.attends_replace host.container fragment

theorem removeContent (id : HostId) (host : Host) (world : World) :
    Follows Conduct.attentive (Live.removeContent id host) world :=
  Forest.Attends.of_known fun _ _ => Forest.handlersAt_clear world.forest host.container

theorem primitive (keeps : run.Keeps Conduct.attentive) :
    Primitive Conduct.attentive run fun _ => False where
  toPlain := plain
  keeps := keeps
  breaks calm := calm
  records _ _ := calm_of_same rfl
  tracksHost _ _ _ _ _ _ := Follows.modifies (calm_of_same rfl)
  names _ _ _ := calm_of_same rfl
  recovers _ _ broken := broken
  emits _ _ _ _ := calm_of_same rfl
  collects := calm_collect
  addsTarget _ _ _ := calm_of_same rfl
  presets _ _ _ world := plain.presetValue (fun _ => Follows.modifies (calm_of_same rfl))
    (fun _ => Follows.modifies (calm_of_same rfl)) world
  writes _ _ _ _ := plain.writeValue (Follows.modifies (calm_of_same rfl)) (trigger keeps _ _)
  addsMethod _ _ _ _ := Follows.modifies (calm_of_same rfl)
  starts _ _ _ _ _ := calm_of_same rfl
  runsEffect id world _ := runEffect keeps id world
  triggers := trigger keeps
  releases target world := by
    have attests : Follows Conduct.attentive (Live.attest (.released target)) world :=
      Follows.modifies (calm_of_same rfl)
    exact attests.bind fun _ _ _ => Follows.modifies (calm_of_same rfl)
  disposes id _ world calm _ :=
    Conduct.attentive.trans calm (calm_of_same (World.sweeps_disposeEffect world id).forest)
  namesEffect _ _ _ _ calm _ := calm
  namesBindings _ _ _ _ calm _ := calm
  createsNode content world := Forest.Attends.of_known fun _ known =>
    Forest.handlersAt_of_content? (Forest.content?_create known)
  plants trees world := .of_nodes fun _ known => Forest.node?_plantFragment world.forest trees known
  setsValue _ _ _ := Forest.Attends.of_known fun _ _ => Forest.handlersAt_setValue _
  listens node kind handler world := world.forest.attends_listen node kind handler
  edits _ _ _ _ _ hears := Forest.Attends.of_known hears
  shows node text world := Follows.asks
    (Forest.Attends.of_known fun _ known => Forest.handlersAt_setTextContent known text)
  changesTemplate _ _ _ := calm_of_same rfl
  hooks _ _ _ _ := calm_of_same rfl
  tells _ _ _ _ := calm_of_same rfl
  mounts _ _ _ := calm_of_same rfl
  templates _ _ _ _ := calm_of_same rfl
  dropsContent id world _ := dropBindings id world
  installs id host bindings fragment _ world _ calm _ :=
    Conduct.attentive.trans calm (installContent id host bindings fragment world)
  removes id host world _ := removeContent id host world
  rendersOwn _ _ impossible := impossible.elim
  mountsOwn _ _ impossible := impossible.elim
  rerendersOwn _ _ impossible := impossible.elim
  destroysOwn _ _ impossible := impossible.elim
  addsHost _ _ _ _ _ calm _ _ := calm
  startsRenderer _ _ _ := calm_of_same rfl
  runsRenderer := runEffect keeps
  rendersBy _ _ _ _ calm _ := calm
  namesHost _ _ _ := calm_of_same rfl

end Attentive

end LiveMarkup
