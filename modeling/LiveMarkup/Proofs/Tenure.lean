import LiveMarkup.Proofs.Asking

/-
This file shows that a living host keeps its bindings until they are disposed, whatever code runs, and that the
bindings of a host look at its state.
-/

namespace LiveMarkup

/-- A binding looks at this state. -/
def Task.owner? : Task → Option TargetId
  | .interpolation state _ _ => some state
  | .textBinding state _ _ => some state
  | .valueBinding state _ _ => some state
  | _ => none

/-- This is what a host says of its bindings. -/
def Host.terms (host : Host) : Bool × Bindings × TargetId := (host.alive, host.bindings, host.state)

namespace World

variable {world before after middle : World} {id : HostId} {effect : EffectId} {state : TargetId} {record : Host}
  {bindings : Bindings}

/-- An effect is a binding of a living host. -/
def Employs (world : World) (id : HostId) (effect : EffectId) : Prop :=
  ∃ host, world.host? id = some host ∧ host.alive = true ∧ effect ∈ host.bindings.effects

/-- An effect is a binding that looks at a state. -/
def LooksAt (world : World) (effect : EffectId) (state : TargetId) : Prop :=
  ∃ task, world.HasTask effect task ∧ task.owner? = some state

/-- The bindings of hosts look at their states. -/
def Equipped (world : World) : Prop :=
  ∀ id host, world.host? id = some host → ∀ effect ∈ host.bindings.effects, world.LooksAt effect host.state

theorem Later.looksAt (later : before.Later after) (looks : before.LooksAt effect state) :
    after.LooksAt effect state := by
  obtain ⟨task, has, owned⟩ := looks
  exact ⟨task, later.hasTask has, owned⟩

theorem employs_congr (terms : (after.host? id).map Host.terms = (before.host? id).map Host.terms)
    (employs : before.Employs id effect) : after.Employs id effect := by
  obtain ⟨host, found, alive, listed⟩ := employs
  rw [found] at terms
  obtain ⟨newer, reached, same⟩ := Option.map_eq_some_iff.mp terms
  simp only [Host.terms, Prod.mk.injEq] at same
  exact ⟨newer, reached, same.1.trans alive, same.2.1.symm ▸ listed⟩

theorem terms_modifyHost {other : HostId} {change : Host → Host} (same : ∀ host, (change host).terms = host.terms) :
    ((world.modifyHost id change).host? other).map Host.terms = (world.host? other).map Host.terms := by
  rw [host?_modifyHost]
  split
  · rw [Option.map_map]
    exact congrArg (Option.map · _) (funext same)
  · rfl

theorem equipped_congr (terms : ∀ id, (after.host? id).map Host.terms = (before.host? id).map Host.terms)
    (looks : ∀ {effect state}, before.LooksAt effect state → after.LooksAt effect state)
    (equipped : before.Equipped) : after.Equipped := by
  intro id host found effect listed
  have same := terms id
  rw [found] at same
  obtain ⟨old, known, agrees⟩ := Option.map_eq_some_iff.mp same.symm
  simp only [Host.terms, Prod.mk.injEq] at agrees
  obtain ⟨-, bound, state⟩ := agrees
  rw [← state]
  exact looks (equipped id old known effect (bound ▸ listed))

/-- Living hosts keep their bindings until they are disposed. -/
structure Tenure (before after : World) : Prop where
  later : before.Later after
  keeps : before.Reachable → before.Sound → ∀ id effect, before.Employs id effect →
    after.Employs id effect ∨ after.graph.isDisposed effect = true
  equips : before.Equipped → after.Equipped

namespace Tenure

/-- Hosts that say the same of their bindings keep them. -/
theorem of_terms (later : before.Later after)
    (terms : ∀ id, (after.host? id).map Host.terms = (before.host? id).map Host.terms) : before.Tenure after where
  later := later
  keeps _ _ id _ employs := Or.inl (employs_congr (terms id) employs)
  equips := equipped_congr terms later.looksAt

/-- Names do not matter, and which effect renders a host does not matter either. -/
theorem carry (tenure : before.Tenure world) (later : before.Later after) (graph : after.graph = world.graph)
    (terms : ∀ id, (after.host? id).map Host.terms = (world.host? id).map Host.terms) : before.Tenure after where
  later := later
  keeps reachable sound id effect employs := by
    rw [graph]
    exact (tenure.keeps reachable sound id effect employs).imp_left (employs_congr (terms id))
  equips equipped := by
    refine equipped_congr terms (fun looks => ?_) (tenure.equips equipped)
    unfold LooksAt HasTask at looks ⊢
    rwa [graph]

theorem of_hosts (later : before.Later after) (hosts : after.hosts = before.hosts) : before.Tenure after :=
  of_terms later fun id => by
    unfold host?
    rw [hosts]

theorem refl (world : World) : world.Tenure world := of_hosts (.refl world) rfl

theorem trans {first second third : World} (early : first.Tenure second) (late : second.Tenure third) :
    first.Tenure third where
  later := early.later.trans late.later
  keeps reachable sound id effect employs := by
    rcases early.keeps reachable sound id effect employs with still | gone
    · exact late.keeps (early.later.reachable reachable) (early.later.sound sound) id effect still
    · exact Or.inr (late.later.isDisposed gone)
  equips equipped := late.equips (early.equips equipped)

theorem foldl {A : Type} {change : World → A → World}
    (each : ∀ (world : World) item, world.Tenure (change world item)) (items : List A) (world : World) :
    world.Tenure (items.foldl change world) :=
  List.foldlRecOn items change (refl world) fun after early item _ => early.trans (each after item)

theorem modifyHost {change : Host → Host} (later : world.Later (world.modifyHost id change))
    (same : ∀ host, (change host).terms = host.terms) : world.Tenure (world.modifyHost id change) :=
  of_terms later fun _ => terms_modifyHost same

/-- A host may forget its bindings if they are disposed. -/
theorem disposing (later : world.Later middle) (found : world.host? id = some record)
    (others : ∀ other, other ≠ id → middle.host? other = world.host? other)
    (forgets : ∀ host, middle.host? id = some host → host.bindings.effects = []) :
    world.Tenure (middle.disposeBindings record.bindings) where
  later := later.trans (later_disposeBindings middle record.bindings)
  keeps reachable sound other effect employs := by
    obtain ⟨host, looked, alive, listed⟩ := employs
    by_cases same : other = id
    · subst same
      cases found.symm.trans looked
      have known := Nat.lt_of_lt_of_le (sound effect (.content other) ⟨record, found, listed⟩) later.effects
      exact Or.inr (isDisposed_disposeBindings (later.reachable reachable) known listed)
    · refine Or.inl ⟨host, ?_, alive, listed⟩
      unfold host? at others looked ⊢
      rw [(objects_disposeBindings middle record.bindings).2, others other same, looked]
  equips equipped other host looked effect listed := by
    have kept : middle.host? other = some host := by
      unfold host? at looked ⊢
      rwa [← (objects_disposeBindings middle record.bindings).2]
    by_cases same : other = id
    · subst same
      rw [forgets host kept] at listed
      cases listed
    · rw [others other same] at kept
      exact (later.trans (later_disposeBindings middle record.bindings)).looksAt (equipped other host kept effect listed)

theorem disposeEffect (world : World) (effect : EffectId) : world.Tenure (world.disposeEffect effect) :=
  of_hosts (later_disposeEffect world effect) (objects_disposeEffect world effect).2

theorem endHost (world : World) (id : HostId) : world.Tenure (world.endHost id) := by
  rcases endHost_eq world id with ⟨-, same⟩ | ⟨record, found, ends⟩
  · rw [same]
    exact refl world
  · have marked : world.Later (world.modifyHost id Host.dead) :=
      later_modifyHost world id Host.dead (fun _ => rfl) (fun _ => rfl)
        (fun _ impossible => by cases impossible) (fun _ => Or.inr rfl) (fun _ => Or.inr rfl)
    have hosts : ∀ other,
        (record.renderEffect.toList.foldl World.disposeEffect (world.modifyHost id Host.dead)).host? other =
          (world.modifyHost id Host.dead).host? other := fun other => by
      unfold host?
      rw [(objects_foldl_disposeEffect _ _).2]
    rw [ends]
    refine disposing (marked.trans (later_foldl later_disposeEffect _ _)) found (fun other apart => ?_)
      fun host reached => ?_
    · exact (hosts other).trans ((host?_modifyHost ..).trans (if_neg (Ne.symm apart)))
    · rw [hosts, host?_modifyHost, if_pos rfl, found] at reached
      cases reached
      rfl

theorem collect (world : World) : world.Tenure world.collect :=
  collect_of_rounds Tenure refl trans
    (fun world => of_hosts (later_rounds world) (hosts_foldl_endState _ world))
    (fun world => foldl endHost _ world) world

theorem closing (world : World) (holds : List Hold) : world.Tenure { world with holds }.collect :=
  (of_hosts (later_holds world holds) rfl).trans (collect _)

/-- A host that is new has no bindings. -/
theorem withHost (component : Component Script) (state : TargetId) (container : NodeId) (world : World) :
    world.Tenure (world.withHost component state container) where
  later := Lasting.later_withHost component state container world
  keeps _ _ id effect employs := by
    obtain ⟨host, found, alive, listed⟩ := employs
    exact Or.inl ⟨host, host?_withHost_of_some component state container found, alive, listed⟩
  equips equipped id host found effect listed := by
    rcases host?_of_withHost found with old | ⟨-, rfl⟩
    · exact (Lasting.later_withHost component state container world).looksAt (equipped id host old effect listed)
    · cases listed

/-- The bindings of a host are disposed when the host forgets them. -/
theorem disposed_emptied (reachable : world.Reachable) (sound : world.Sound) (found : world.host? id = some record)
    (employs : world.Employs id effect) : (world.emptied id record).graph.isDisposed effect = true := by
  obtain ⟨host, looked, -, listed⟩ := employs
  cases found.symm.trans looked
  have known := sound effect (.content id) ⟨record, found, listed⟩
  exact (later_collect _).isDisposed
    (isDisposed_disposeBindings (show (world.modifyHost id _).Reachable from reachable) known listed)

theorem emptied (found : world.host? id = some record) : world.Tenure (world.emptied id record) := by
  have forgets : world.Later (world.modifyHost id fun host => { host with bindings := {} }) :=
    later_modifyHost world id _ (fun _ => rfl) (fun _ => rfl) (fun _ lives => lives) (fun _ => Or.inr rfl)
      (fun _ => Or.inl rfl)
  refine (disposing forgets found (fun other apart => ?_) fun host reached => ?_).trans (collect _)
  · exact (host?_modifyHost ..).trans (if_neg (Ne.symm apart))
  · rw [host?_modifyHost, if_pos rfl, found] at reached
    cases reached
    rfl

/-- A host may get other bindings when its old ones are disposed, if they look at its state. -/
theorem installed {fragment : NodeId} (tenure : before.Tenure world)
    (later : before.Later (world.installed id record bindings fragment))
    (gone : before.Reachable → before.Sound →
      ∀ effect, before.Employs id effect → world.graph.isDisposed effect = true)
    (state : ∀ host, world.host? id = some host → host.state = record.state)
    (looks : ∀ effect ∈ bindings.effects, world.LooksAt effect record.state) :
    before.Tenure (world.installed id record bindings fragment) where
  later := later
  keeps reachable sound other effect employs := by
    by_cases same : other = id
    · subst same
      exact Or.inr (gone reachable sound effect employs)
    · refine (tenure.keeps reachable sound other effect employs).imp_left fun still => employs_congr ?_ still
      exact congrArg (Option.map Host.terms) ((host?_modifyHost ..).trans (if_neg (Ne.symm same)))
  equips equipped other host found effect listed := by
    have tasks : ∀ {effect state}, world.LooksAt effect state →
        (world.installed id record bindings fragment).LooksAt effect state := fun looks => looks
    have there : (world.installed id record bindings fragment).host? other = some host := found
    unfold World.installed at there
    rw [host?_modifyHost] at there
    split at there
    · rename_i same
      subst same
      obtain ⟨old, known, rfl⟩ := Option.map_eq_some_iff.mp there
      have owner : old.state = record.state := state old known
      rw [owner]
      exact tasks (looks effect listed)
    · exact tasks (tenure.equips equipped other host there effect listed)

end Tenure

end World

/-- However code ends, living hosts keep their bindings until they are disposed. -/
def Conduct.tenure : Conduct := .always World.Tenure World.Tenure.refl World.Tenure.trans

namespace Tenure

open Live

variable {run : Runner} {world before after : World} {state : TargetId} {bindings : Bindings} {task : Task}
  {id : HostId}

/-! Bindings that are made for a state look at it. -/

/-- All effects of these bindings look at a state. -/
def Serves (state : TargetId) (bindings : Bindings) (world : World) : Prop :=
  ∀ effect ∈ bindings.effects, world.LooksAt effect state

theorem Serves.later (serves : Serves state bindings before) (later : before.Later after) :
    Serves state bindings after := fun effect listed => later.looksAt (serves effect listed)

theorem Serves.addEffect {effect : EffectId} (serves : Serves state bindings world) (looks : world.LooksAt effect state) :
    Serves state (bindings.addEffect effect) world := by
  intro other member
  rcases List.mem_append.mp member with old | new
  · exact serves other old
  · rw [List.mem_singleton.mp new]
    exact looks

section

variable (lasting : run.Keeps Conduct.lasting)
include lasting

theorem registers (owned : task.owner? = some state) (label : String) (world : World) :
    Gives Conduct.lasting (fun effect after => after.LooksAt effect state)
      (Live.registerEffect run label task []) world := by
  have other : ∀ host, task ≠ .render host := by
    rintro host rfl
    cases owned
  have primitive := Lasting.primitive lasting
  refine ⟨primitive.registerEffect label other [] world, fun effect after outcome => ?_⟩
  obtain ⟨made, label, captures, -, rfl, later⟩ :=
    primitive.toPlain.makes_registerEffect (primitive.runsMade other) outcome
  exact ⟨task, later.hasTask (made.hasTask_withEffect label task captures), owned⟩

theorem bindInterpolation (node : NodeId) (serves : Serves state bindings world) :
    Gives Conduct.lasting (Serves state) (Live.bindInterpolation run state node bindings) world := by
  refine Gives.asks ?_
  dsimp only
  split
  · exact (registers lasting rfl _ world).bind fun _ _ later looks =>
      Gives.pure ((serves.later later).addEffect looks)
  · exact Gives.pure serves

theorem bindText (node : NodeId) (source : String) (serves : Serves state bindings world) :
    Gives Conduct.lasting (Serves state) (Live.bindText run state node source bindings) world :=
  (registers lasting rfl _ world).bind fun _ after later looks =>
    Gives.follows_bind ((Lasting.primitive lasting).edits.dropDirective node _ after) fun _ _ dropped =>
      Gives.pure (((serves.later later).addEffect looks).later dropped)

theorem bindModel (node : NodeId) (key : String) (serves : Serves state bindings world) :
    Gives Conduct.lasting (Serves state) (Live.bindModel run state node key bindings) world := by
  have primitive := Lasting.primitive lasting
  refine Gives.asks ?_
  dsimp only
  split
  · exact (registers lasting rfl _ world).bind fun _ after later looks =>
      Gives.asks (Gives.follows_bind (Follows.modifies (primitive.listens node _ _ after))
        fun _ listening heard => Gives.follows_bind (primitive.edits.dropDirective node _ listening)
          fun _ _ dropped => Gives.pure (((serves.later later).addEffect looks).later (heard.trans dropped)))
  · exact Gives.follows_bind (primitive.note _) fun _ _ later => Gives.pure (serves.later later)

theorem bindEvent (node : NodeId) (name kind source : String) (serves : Serves state bindings world) :
    Gives Conduct.lasting (Serves state) (Live.bindEvent state node name kind source bindings) world := by
  have primitive := Lasting.primitive lasting
  unfold Live.bindEvent
  split
  · exact Gives.follows_bind (primitive.note _) fun _ _ later => Gives.pure (serves.later later)
  · exact Gives.follows_bind (Follows.modifies (primitive.listens node _ _ world)) fun _ listening heard =>
      Gives.follows_bind (primitive.edits.dropDirective node _ listening) fun _ _ dropped =>
        Gives.pure (serves.later (heard.trans dropped))

theorem bindAttribute (node : NodeId) (name source : String) (serves : Serves state bindings world) :
    Gives Conduct.lasting (Serves state) (Live.bindAttribute run state node name source bindings) world := by
  unfold Live.bindAttribute
  split
  · exact bindText lasting node source serves
  · exact bindModel lasting node source serves
  · exact bindEvent lasting node name _ source serves
  · exact Gives.pure serves

theorem bindAttributes (node : NodeId) (attributes : List (String × String)) (serves : Serves state bindings world) :
    Gives Conduct.lasting (Serves state) (Live.bindAttributes run state node attributes bindings) world := by
  induction attributes generalizing bindings world with
  | nil => exact Gives.pure serves
  | cons entry rest inductionHypothesis =>
      exact (bindAttribute lasting node entry.1 entry.2 serves).bind fun _ _ _ bound => inductionHypothesis bound

theorem bindNode (node : NodeId) (serves : Serves state bindings world) :
    Gives Conduct.lasting (fun result after => Serves state result.1 after)
      (Live.bindNode run state node bindings) world := by
  refine Gives.asks ?_
  dsimp only
  split
  · exact (bindInterpolation lasting node serves).bind fun _ _ _ bound => Gives.pure bound
  · exact (bindAttributes lasting node _ serves).bind fun _ _ _ bound => Gives.pure bound
  · exact Gives.pure serves

theorem bindFrom (root : NodeId) (limit : Nat) (place : Option NodeId) (serves : Serves state bindings world) :
    Gives Conduct.lasting (Serves state) (Live.bindFrom run state root limit place bindings) world := by
  induction limit generalizing place bindings world with
  | zero =>
      cases place with
      | none => exact Gives.pure serves
      | some node => exact ⟨Follows.stops (World.Later.refl world) _, fun _ _ outcome => by cases outcome⟩
  | succ limit inductionHypothesis =>
      cases place with
      | none => exact Gives.pure serves
      | some node =>
          exact (bindNode lasting node serves).bind fun _ _ _ bound => Gives.asks (inductionHypothesis _ bound)

theorem bind (root : NodeId) (state : TargetId) (world : World) :
    Gives Conduct.lasting (Serves state) (Live.bind run root state) world :=
  Gives.asks ((bindFrom lasting root _ _ fun _ impossible => by cases impossible).bind fun _ _ _ serves =>
    Gives.follows_bind ((Lasting.primitive lasting).note _) fun _ _ later => Gives.pure (serves.later later))

end

/-! What code does. -/

theorem note (notice : Notice) (world : World) : world.Tenure (world.note notice) :=
  .of_hosts (World.later_note world notice) rfl

theorem attest (deed : Deed) (world : World) : world.Tenure (world.attest deed) :=
  .of_hosts (.attest world deed) rfl

theorem tell (milestone : Milestone) (world : World) : world.Tenure (world.tell id milestone) :=
  .modifyHost (Lasting.later_tell id milestone world) fun _ => rfl

theorem track (target : TargetId) (key : Key) (world : World) : Follows Conduct.tenure (Live.track target key) world :=
  have follows : Follows Conduct.lasting (Live.track target key) world := Lasting.track target key
  Follows.modifies (.of_hosts follows.later rfl)

theorem putValue (state : TargetId) (key : String) (value : Value) (world : World) :
    Follows Conduct.tenure (Live.putValue state key value) world :=
  have follows : Follows Conduct.lasting (Live.putValue state key value) world := Lasting.putValue state key value
  Follows.modifies (.of_hosts follows.later rfl)

theorem inFrame {A : Type} {frame : Option EffectId} {action : Live A}
    (allowed : world.graph.Allows (.entered frame))
    (ends : Conduct.tenure.Ends (world.entered frame) (action { world with graph := world.graph.push frame })) :
    Follows Conduct.tenure (Live.inFrame frame action) world := by
  have left : ∀ after : World, (world.entered frame).Tenure after →
      world.Tenure { after with graph := after.graph.pop }.collect := fun after inside => by
    refine World.Tenure.trans ⟨inside.later.leave allowed, fun reachable sound => ?_, fun equipped => ?_⟩ (.collect _)
    · obtain ⟨moves, path⟩ := reachable
      exact inside.keeps ⟨_, path.step (.entered frame) allowed⟩ fun effect place refers =>
        Nat.lt_of_lt_of_le (sound effect place refers) (Graph.size_moved world.graph (.entered frame))
    · refine inside.equips fun host record found effect listed => ?_
      obtain ⟨task, has, owned⟩ := equipped host record found effect listed
      exact ⟨task, World.hasTask_entered.mpr has, owned⟩
  exact Follows.inFrame ends left left

theorem plain : Plain Conduct.tenure where
  finishes name outcome world := .of_hosts (Lasting.plain.finishes name outcome world) rfl
  notes := note
  meets tag world := .of_hosts (Lasting.plain.meets tag world) rfl
  parses source world := .of_hosts (Lasting.plain.parses source world) rfl
  holds held world := by
    refine Follows.modifies ?_
    split
    · exact .refl world
    · exact .of_hosts (World.later_holds world _) rfl
  operates _ world follows := follows.ending fun after => .closing after world.holds
  letsGo _ world := Follows.modifies (.closing world _)
  untracks _ _ follows := inFrame trivial follows
  tracks target key world _ := track target key world
  tracksByHand target key := .trackByHand (fun world => Follows.modifies (attest _ world)) (track target key)
  nodes nodes world := .of_hosts (Lasting.plain.nodes nodes world) rfl

theorem dropBindings (id : HostId) (world : World) : Follows Conduct.tenure (Live.dropBindings id) world := by
  cases found : world.host? id with
  | none =>
      refine Follows.asks ?_
      rw [found]
      exact Follows.pure _
  | some record =>
      have dropped : world.Tenure (world.emptied id record) := .emptied found
      unfold Follows
      rw [World.dropBindings_eq found]
      exact dropped

theorem removeContent (id : HostId) (host : Host) (world : World) :
    Follows Conduct.tenure (Live.removeContent id host) world := by
  have cleared : world.Tenure { world.attest (.destroyed id (world.forest.holders host.container)) with
      forest := world.forest.clear host.container } :=
    .of_hosts (.of_same rfl rfl rfl rfl (Nat.le_of_eq (Forest.size_clear _ _).symm) (List.suffix_cons _ _)) rfl
  have removed : world.Tenure (world.removed id host) := cleared.trans (.modifyHost
    (World.later_modifyHost _ id _ (fun _ => rfl) (fun _ => rfl) (fun _ lives => lives) (fun _ => Or.inl rfl)
      fun _ => Or.inl rfl) fun _ => rfl)
  exact removed

section

variable (keeps : run.Keeps Conduct.tenure)
include keeps

theorem runEffect (effect : EffectId) (world : World) : Follows Conduct.tenure (Live.runEffect run effect) world :=
  Follows.runEffect keeps (fun notice => note notice world) fun allowed _ ends => inFrame allowed ends

theorem trigger (target : TargetId) (name : String) (world : World) :
    Follows Conduct.tenure (Live.trigger run target name) world :=
  plain.trigger (fun _ after => .of_hosts (World.later_holds after _) rfl) (runEffect keeps) target name world

variable (lasting : run.Keeps Conduct.lasting)
include lasting

theorem basic : Basic Conduct.tenure run where
  toPlain := plain
  keeps := keeps
  breaks tenure := tenure
  records happening world := .of_hosts ((Lasting.basic lasting).records happening world) rfl
  tracksHost _ host key world _ _ := track host.state key world
  names names world rearranged := .of_hosts ((Lasting.basic lasting).names names world rearranged) rfl
  recovers kind payload broken := (World.Tenure.trans broken (note (.hookPanicked kind payload) _)).trans (attest _ _)
  emits _ kind world _ := tell (.emitted kind) world

theorem elementary : Elementary Conduct.tenure run where
  toBasic := basic keeps lasting
  collects := .collect
  addsTarget store world alive := .of_hosts ((Lasting.primitive lasting).addsTarget store world alive) rfl
  presets state key value := plain.presetValue (fun world => Follows.modifies (attest _ world)) (putValue state key value)
  writes state key value world := plain.writeValue (putValue state key value world) (trigger keeps state key)
  addsMethod state name method world :=
    Follows.modifies (.of_hosts ((Lasting.primitive lasting).addsMethod state name method world).later rfl)
  starts label task captures world _ := .of_hosts (Lasting.later_withEffect label task captures world) rfl
  runsEffect effect world _ := runEffect keeps effect world
  triggers := trigger keeps
  releases target world := by
    have released : world.Tenure { world.attest (.released target) with graph := world.graph.release target } :=
      .of_hosts (Lasting.releaseTarget target world).later rfl
    exact released
  disposes effect _ world calm _ := World.Tenure.trans calm (.disposeEffect world effect)
  namesEffect name effect origin world calm begets := .carry calm
    ((Lasting.primitive lasting).namesEffect name effect origin world calm.later (begets.imp World.Tenure.later)) rfl
    fun _ => rfl
  namesBindings name bindings origin world calm begets := .carry calm
    ((Lasting.primitive lasting).namesBindings name bindings origin world calm.later fun effect listed =>
      (begets effect listed).imp World.Tenure.later) rfl fun _ => rfl
  createsNode content world := .of_hosts ((Lasting.primitive lasting).createsNode content world) rfl
  plants trees world := .of_hosts ((Lasting.primitive lasting).plants trees world) rfl
  setsValue node value world := .of_hosts ((Lasting.primitive lasting).setsValue node value world) rfl
  listens node kind handler world := .of_hosts ((Lasting.primitive lasting).listens node kind handler world) rfl
  edits deed forest world grows keeps hears :=
    .of_hosts ((Lasting.primitive lasting).edits deed forest world grows keeps hears) rfl
  shows node text world := by
    have shown : world.Tenure { world.attest (.shown world.graph.active? (world.forest.holders node)) with
        forest := world.forest.setTextContent node text } :=
      .of_hosts ((Lasting.primitive lasting).shows node text world).later rfl
    exact shown
  changesTemplate id template world :=
    .modifyHost ((Lasting.primitive lasting).changesTemplate id template world) fun _ => rfl
  hooks id kind body world := .modifyHost ((Lasting.primitive lasting).hooks id kind body world) fun _ => rfl

/-! What hosts do. -/

/-- New content comes after the old bindings are disposed. -/
theorem renderContent {host record : Host} (there : world.host? id = some record) (same : record.state = host.state)
    (fragment : NodeId) : Follows Conduct.tenure (Live.renderContent run id host fragment) world := by
  have attested : world.Tenure (world.attest (.parsed id host.component.template)) := attest _ world
  have drops := World.Tenure.emptied
    (show (world.attest (.parsed id host.component.template)).host? id = some record from there)
  have first := attested.trans drops
  refine ends_bind (show Conduct.tenure.Ends world (Live.attest _ world) from attested) fun _ parsed attests => ?_
  cases attests
  have dropped : Live.dropBindings id (world.attest (.parsed id host.component.template)) = .ok () _ :=
    World.dropBindings_eq there
  refine ends_bind (dropped ▸ first) fun _ emptied outcome => ?_
  cases dropped.symm.trans outcome
  have binds := ((elementary keeps lasting).bind fragment host.state
    ((world.attest (.parsed id host.component.template)).emptied id record)).1
  refine ends_bind (Conduct.Ends.after first binds) fun bindings bound outcome => ?_
  have second := binds.calm outcome
  have installed : world.Tenure (bound.installed id host bindings fragment) := by
    have lasts := (Lasting.primitive lasting).bind fragment host.state
      ((world.attest (.parsed id host.component.template)).emptied id record)
    have installs : ((world.attest (.parsed id host.component.template)).emptied id record).Later
        (bound.installed id host bindings fragment) :=
      Lasting.installContent id host bindings fragment _ bound second.later (lasts.2 bindings bound outcome)
    refine (first.trans second).installed (first.later.trans installs) (fun reachable sound effect employs => ?_)
      (fun newer reached => ?_) ((bind lasting fragment host.state _).2 bindings bound outcome)
    · exact second.later.isDisposed (World.Tenure.disposed_emptied (attested.later.reachable reachable)
        (attested.later.sound sound) there employs)
    · obtain ⟨last, found, -, state, -⟩ := (first.later.trans second.later).hosts id record there
      cases found.symm.trans reached
      exact state.trans same
  have installs : Conduct.tenure.Ends world (Live.installContent id host bindings fragment bound) := installed
  refine ends_bind installs fun _ shown shows => ?_
  cases shows
  exact Conduct.Ends.after installed (Follows.asks ((plain.note _).bind fun _ noted _ =>
    ((basic keeps lasting).called (.rendered id) rfl noted).discard))

theorem renderHost (id : HostId) (world : World) : Follows Conduct.tenure (Live.renderHost run id) world := by
  refine Follows.asks ?_
  split
  · exact Follows.pure _
  · rename_i host found
    have parses := (elementary keeps lasting).parseTemplate host.component.template world
    refine parses.bind fun parsed planted outcome => ?_
    obtain ⟨record, there, -, same, -⟩ := (parses.calm outcome).later.hosts id host found
    cases parsed with
    | error error => exact Follows.pure _
    | ok fragment => exact (renderContent keeps lasting there same fragment).bind fun _ _ _ => Follows.pure _

theorem destroyHost (id : HostId) (world : World) : Follows Conduct.tenure (Live.destroyHost run id) world := by
  refine ((basic keeps lasting).emitsHost id (fun impossible => by cases impossible)).bind fun _ emitted _ =>
    (dropBindings id emitted).bind fun _ dropped _ => Follows.asks ?_
  split
  · exact Follows.pure _
  · exact (removeContent id _ dropped).bind fun _ _ _ => plain.note _

theorem primitive : Primitive Conduct.tenure run fun _ => True where
  toElementary := elementary keeps lasting
  tells _ _ _ foreign := (foreign trivial).elim
  mounts _ _ foreign := (foreign trivial).elim
  templates _ _ _ foreign := (foreign trivial).elim
  dropsContent _ _ foreign := (foreign trivial).elim
  installs _ _ _ _ _ _ foreign := (foreign trivial).elim
  removes _ _ _ foreign := (foreign trivial).elim
  rendersOwn id world _ _ := Basic.renderAsked (fun milestone after => tell milestone after)
    (fun after _ => renderHost keeps lasting id after) False.elim
  mountsOwn id world _ _ := (basic keeps lasting).mountHost (fun milestone after => tell milestone after)
    (fun after _ => renderHost keeps lasting id after)
    (fun after => .modifyHost ((Lasting.primitive lasting).mounts id after not_false) fun _ => rfl) False.elim
  rerendersOwn id world _ _ := (basic keeps lasting).rerender (fun milestone after => tell milestone after)
    fun after (_ : False → .host id ∈ after.holds) => renderHost keeps lasting id after
  destroysOwn id world _ := destroyHost keeps lasting id world
  addsHost component state container _ world calm _ _ :=
    World.Tenure.trans calm (.withHost component state container world)
  startsRenderer label id world := .of_hosts (Lasting.later_withEffect label (.render id) [] world) rfl
  runsRenderer := runEffect keeps
  rendersBy id effect origin world calm makes := .carry calm
    ((Lasting.primitive lasting).rendersBy id effect origin world calm.later (makes.imp World.Tenure.later)) rfl
    fun _ => World.terms_modifyHost fun _ => rfl
  namesHost name id world := .of_hosts ((Lasting.primitive lasting).namesHost name id world) rfl

end

theorem keeps (depth : Nat) : (runTo depth).Keeps Conduct.tenure :=
  Runner.keeps_runTo World.Tenure.refl (fun depth keeps => (primitive keeps (Pacing.lasts depth)).lawful) depth

end Tenure

/-- Whatever code runs, living hosts keep their bindings until they are disposed. -/
theorem lawful_tenure (depth : Nat) : Lawful Conduct.tenure (Live.runTo depth) :=
  (Tenure.primitive (Tenure.keeps depth) (Pacing.lasts depth)).lawful

end LiveMarkup
