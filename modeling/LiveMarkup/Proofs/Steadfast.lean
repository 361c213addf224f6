import LiveMarkup.Proofs.Attribution
import LiveMarkup.Proofs.Sweeping

/-
This file reduces what all code keeps about the graph and about the hooks of hosts to what single moves of
the graph, frames and changes of hosts keep.
-/

namespace LiveMarkup

namespace World

/-- A relation between worlds endures if it concerns the graph and the hooks of hosts only, and gets over the
end of objects. -/
structure Enduring (kept : World → World → Prop) : Prop where
  trans : ∀ {first second third : World}, kept first second → kept second third → kept first third
  still : ∀ {before after : World}, after.graph = before.graph → after.hosts = before.hosts →
    kept before after
  disposes : ∀ (world : World) (id : EffectId), kept world { world with graph := world.graph.dispose id }
  releases : ∀ (world : World) (target : TargetId), kept world { world with graph := world.graph.release target }
  changes : ∀ (world : World) (id : HostId) (change : Host → Host),
    (∀ host, host.hooks <+: (change host).hooks) → kept world (world.modifyHost id change)

/-- It is steadfast if it gets over reads, frames, and further objects as well. -/
structure Steadfast (kept : World → World → Prop) : Prop extends Enduring kept where
  tracks : ∀ (world : World) (dependency : Dependency),
    kept world { world with graph := world.graph.track dependency }
  creates : ∀ (world : World) label task captures, kept world (world.withEffect label task captures)
  frames : ∀ {world after : World} {frame : Option EffectId}, world.graph.Allows (.entered frame) →
    kept (world.entered frame) after → kept world { after with graph := after.graph.pop }
  enters : ∀ (world : World) component state container,
    kept world (world.withHost component state container)

variable {kept : World → World → Prop}

namespace Enduring

open Live

/-- It makes no difference whether code returns or breaks off. -/
def conduct (enduring : Enduring kept) : Conduct :=
  .always kept (fun _ => enduring.still rfl rfl) enduring.trans

variable (enduring : Enduring kept)

include enduring

theorem refl (world : World) : kept world world := enduring.still rfl rfl

/-- A change that appends no hooks may be made to a host. -/
theorem alters (world : World) (id : HostId) {change : Host → Host}
    (same : ∀ host, (change host).hooks = host.hooks) : kept world (world.modifyHost id change) :=
  enduring.changes world id change fun host => same host ▸ List.prefix_rfl

theorem foldl {A : Type} {change : World → A → World} (step : ∀ world item, kept world (change world item))
    (world : World) (items : List A) : kept world (items.foldl change world) :=
  List.foldlRecOn items change (enduring.refl world) fun after early item _ =>
    enduring.trans early (step after item)

theorem disposeEffect (world : World) (id : EffectId) : kept world (world.disposeEffect id) := by
  unfold World.disposeEffect
  split
  · exact enduring.refl world
  · split
    · exact enduring.refl world
    · exact enduring.trans (enduring.disposes world id) (enduring.still rfl rfl)

theorem disposeBindings (world : World) (bindings : Bindings) :
    kept world (world.disposeBindings bindings) := by
  have disposed := enduring.foldl enduring.disposeEffect world bindings.effects
  unfold World.disposeBindings
  dsimp only
  split
  · exact disposed
  · exact enduring.trans disposed (enduring.still rfl rfl)

theorem endHost (world : World) (id : HostId) : kept world (world.endHost id) := by
  rcases endHost_eq world id with ⟨-, same⟩ | ⟨host, -, ends⟩
  · rw [same]
    exact enduring.refl world
  · rw [ends]
    have dies : kept world (world.modifyHost id Host.dead) := enduring.alters world id fun _ => rfl
    exact enduring.trans dies
      (enduring.trans (enduring.foldl enduring.disposeEffect _ _) (enduring.disposeBindings _ _))

theorem endState (world : World) (id : TargetId) : kept world (world.endState id) :=
  enduring.trans (enduring.releases world id) (enduring.still rfl rfl)

theorem collect (world : World) : kept world world.collect :=
  collect_of_rounds kept enduring.refl enduring.trans
    (fun current => enduring.foldl enduring.endState current _)
    (fun current => enduring.foldl enduring.endHost current _) world

/-- An operation that ends lets go of what it held, and then objects may end. -/
theorem closes (world : World) (holds : List Hold) : kept world { world with holds }.collect := by
  have lets : kept world { world with holds } := enduring.still rfl rfl
  exact enduring.trans lets (enduring.collect _)

variable {A : Type} {world : World}

theorem modifies {change : World → World} (keeps : kept world (change world)) :
    Follows enduring.conduct (modify change) world := by
  have calm : enduring.conduct.calm world (change world) := keeps
  exact Follows.modifies calm

theorem attest (deed : Deed) : Follows enduring.conduct (Live.attest deed) world :=
  enduring.modifies (enduring.still rfl rfl)

theorem hold (held : Hold) : Follows enduring.conduct (Live.hold held) world := by
  refine enduring.modifies (enduring.still ?_ ?_) <;> split <;> rfl

theorem operation {action : Live A} (follows : Follows enduring.conduct action world) :
    Follows enduring.conduct (Live.operation action) world :=
  follows.ending fun after => enduring.closes after world.holds

end Enduring

namespace Steadfast

open Live

variable {A : Type} {run : Runner} {world : World} (steadfast : Steadfast kept)

include steadfast

theorem track (target : TargetId) (key : Key) : Follows steadfast.conduct (Live.track target key) world :=
  steadfast.modifies (steadfast.tracks world ⟨target, key⟩)

theorem inFrame {frame : Option EffectId} {action : Live A} (allowed : world.graph.Allows (.entered frame))
    (ends : steadfast.conduct.Ends (world.entered frame)
      (action { world with graph := world.graph.push frame })) :
    Follows steadfast.conduct (Live.inFrame frame action) world := by
  have left : ∀ after, kept (world.entered frame) after →
      kept world { after with graph := after.graph.pop }.collect :=
    fun _ inside => steadfast.trans (steadfast.frames allowed inside) (steadfast.collect _)
  exact Follows.inFrame ends left left

theorem plain : Plain steadfast.conduct where
  finishes _ _ _ := steadfast.still rfl rfl
  notes _ _ := steadfast.still rfl rfl
  meets _ _ := steadfast.still rfl rfl
  parses _ _ := steadfast.still rfl rfl
  holds held _ := steadfast.hold held
  operates _ _ follows := steadfast.operation follows
  letsGo _ world := steadfast.modifies (steadfast.closes world _)
  untracks _ _ follows := steadfast.inFrame trivial follows
  tracks target key _ _ := steadfast.track target key
  tracksByHand target key := .trackByHand (fun _ => steadfast.attest _) fun _ => steadfast.track target key
  nodes _ _ := steadfast.still rfl rfl

theorem runEffect (keeps : run.Keeps steadfast.conduct) (id : EffectId) (world : World) :
    Follows steadfast.conduct (Live.runEffect run id) world :=
  Follows.runEffect keeps (fun _ => steadfast.still rfl rfl) fun allowed _ ends => steadfast.inFrame allowed ends

theorem trigger (keeps : run.Keeps steadfast.conduct) (target : TargetId) (name : String) (world : World) :
    Follows steadfast.conduct (Live.trigger run target name) world :=
  steadfast.plain.trigger (fun _ _ => steadfast.still rfl rfl) (steadfast.runEffect keeps) target name world

theorem dropBindings (id : HostId) (world : World) : Follows steadfast.conduct (Live.dropBindings id) world := by
  refine Follows.asks ?_
  split
  · exact Follows.pure _
  · rename_i host _
    have forgets : Follows steadfast.conduct (Live.modifyHost id fun host => { host with bindings := {} }) world :=
      steadfast.modifies (steadfast.alters world id fun _ => rfl)
    exact forgets.bind fun _ after _ => steadfast.modifies
      (steadfast.trans (steadfast.disposeBindings after host.bindings) (steadfast.collect _))

theorem installContent (id : HostId) (host : Host) (bindings : Bindings) (fragment : NodeId) (world : World) :
    Follows steadfast.conduct (Live.installContent id host bindings fragment) world := by
  have shows : ∀ after, Follows steadfast.conduct (Live.modifyForest fun forest =>
      (forest.clear host.container).append host.container fragment) after :=
    fun _ => steadfast.modifies (steadfast.still rfl rfl)
  exact Follows.asks ((steadfast.attest _).bind fun _ _ _ => (shows _).bind fun _ after _ =>
    steadfast.modifies (steadfast.alters after id fun _ => rfl))

theorem removeContent (id : HostId) (host : Host) (world : World) :
    Follows steadfast.conduct (Live.removeContent id host) world := by
  have clears : ∀ after, Follows steadfast.conduct (Live.modifyForest (·.clear host.container)) after :=
    fun _ => steadfast.modifies (steadfast.still rfl rfl)
  exact Follows.asks ((steadfast.attest _).bind fun _ _ _ => (clears _).bind fun _ after _ =>
    steadfast.modifies (steadfast.alters after id fun _ => rfl))

theorem primitive (keeps : run.Keeps steadfast.conduct) : Primitive steadfast.conduct run fun _ => False where
  toPlain := steadfast.plain
  keeps := keeps
  breaks calm := calm
  records _ _ := steadfast.still rfl rfl
  tracksHost _ host key _ _ _ := steadfast.track host.state key
  names _ _ _ := steadfast.still rfl rfl
  recovers _ _ broken := steadfast.trans broken (steadfast.still rfl rfl)
  emits id _ world _ := steadfast.alters world id fun _ => rfl
  collects := steadfast.collect
  addsTarget _ _ _ := steadfast.still rfl rfl
  presets _ _ _ world := steadfast.plain.presetValue (fun _ => steadfast.attest _)
    (fun _ => steadfast.modifies (steadfast.still rfl rfl)) world
  writes _ _ _ _ := steadfast.plain.writeValue (steadfast.modifies (steadfast.still rfl rfl))
    (steadfast.trigger keeps _ _)
  addsMethod _ _ _ _ := steadfast.modifies (steadfast.still rfl rfl)
  starts label task captures world _ := steadfast.creates world label task captures
  runsEffect id world _ := steadfast.runEffect keeps id world
  triggers := steadfast.trigger keeps
  releases target world := (steadfast.attest (.released target)).bind fun _ after _ =>
    steadfast.modifies (steadfast.releases after target)
  disposes id _ world calm _ := steadfast.trans calm (steadfast.disposeEffect world id)
  namesEffect _ _ _ _ calm _ := steadfast.trans calm (steadfast.still rfl rfl)
  namesBindings _ _ _ _ calm _ := steadfast.trans calm (steadfast.still rfl rfl)
  createsNode _ _ := steadfast.still rfl rfl
  plants _ _ := steadfast.still rfl rfl
  setsValue _ _ _ := steadfast.still rfl rfl
  listens _ _ _ _ := steadfast.still rfl rfl
  edits _ _ _ _ _ _ := steadfast.still rfl rfl
  shows _ _ _ := Follows.asks ((steadfast.attest _).bind fun _ _ _ => steadfast.modifies (steadfast.still rfl rfl))
  changesTemplate id _ world := steadfast.alters world id fun _ => rfl
  hooks id _ _ world := steadfast.changes world id _ fun _ => List.prefix_append _ _
  tells id _ world _ := steadfast.alters world id fun _ => rfl
  mounts id world _ := steadfast.alters world id fun _ => rfl
  templates _ _ _ _ := steadfast.still rfl rfl
  dropsContent id world _ := steadfast.dropBindings id world
  installs id host bindings fragment _ world _ calm _ :=
    Conduct.Ends.after calm (steadfast.installContent id host bindings fragment world)
  removes id host world _ := steadfast.removeContent id host world
  rendersOwn _ _ impossible := impossible.elim
  mountsOwn _ _ impossible := impossible.elim
  rerendersOwn _ _ impossible := impossible.elim
  destroysOwn _ _ impossible := impossible.elim
  addsHost component state container _ world calm _ _ :=
    steadfast.trans calm (steadfast.enters world component state container)
  startsRenderer label id world := steadfast.creates world label (.render id) []
  runsRenderer := steadfast.runEffect keeps
  rendersBy id _ _ world calm _ := steadfast.trans calm (steadfast.alters world id fun _ => rfl)
  namesHost _ _ _ := steadfast.still rfl rfl

theorem keeps_runTo (depth : Nat) : (Live.runTo depth).Keeps steadfast.conduct :=
  Runner.keeps_runTo steadfast.refl (fun _ keeps => (steadfast.primitive keeps).lawful) depth

/-- Whatever code runs, it keeps what is steadfast. -/
theorem lawful (depth : Nat) : Lawful steadfast.conduct (Live.runTo depth) :=
  (steadfast.primitive (steadfast.keeps_runTo depth)).lawful

theorem activity (depth : Nat) (activity : Activity) (world : World) :
    kept world (worldAfter (Live.runTo depth activity) world) :=
  Follows.always_iff.mp (steadfast.keeps_runTo depth activity world trivial)

end Steadfast

end World

end LiveMarkup
