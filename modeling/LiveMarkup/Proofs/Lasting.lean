import LiveMarkup.Proofs.Later
import LiveMarkup.Proofs.Nodes
import LiveMarkup.Proofs.Settled

/-
This file shows that all code of a world leads to later worlds only.
-/

namespace LiveMarkup

namespace World

/-! The end of objects. -/

theorem later_disposeEffect (world : World) (id : EffectId) :
    world.Later (world.disposeEffect id) := by
  unfold disposeEffect
  split
  · exact .refl world
  · split
    · exact .refl world
    · have disposed := Later.of_move world (.disposed id) trivial (Graph.stack_dispose _ id)
        (fun _ impossible => by cases impossible)
      exact disposed.trans (.of_same rfl rfl rfl rfl (Nat.le_refl _) (List.suffix_refl _))

theorem later_note (world : World) (notice : Notice) : world.Later (world.note notice) :=
  .of_same rfl rfl rfl rfl (Nat.le_refl _) (List.suffix_refl _)

theorem later_foldl {A : Type} {change : World → A → World}
    (kept : ∀ (world : World) item, world.Later (change world item)) (world : World) (items : List A) :
    world.Later (items.foldl change world) :=
  List.foldlRecOn items change (Later.refl world) fun after early item _ => early.trans (kept after item)

theorem later_disposeBindings (world : World) (bindings : Bindings) :
    world.Later (world.disposeBindings bindings) := by
  have disposed := later_foldl later_disposeEffect world bindings.effects
  unfold disposeBindings
  dsimp only
  split
  · exact disposed
  · exact disposed.trans (later_note _ _)

theorem host?_modifyHost (world : World) (id other : HostId) (change : Host → Host) :
    (world.modifyHost id change).host? other =
      if id = other then (world.host? other).map change else world.host? other := by
  simp [modifyHost, host?, Array.getElem?_modify]

theorem host?_modifyHost_of_none {world : World} (id : HostId) {other : HostId} (change : Host → Host)
    (absent : world.host? other = none) : (world.modifyHost id change).host? other = none := by
  rw [host?_modifyHost, absent]
  exact ite_self _

theorem host?_withHost_of_some {world : World} {id : HostId} {host : Host} (component : Component Script)
    (state : TargetId) (container : NodeId) (found : world.host? id = some host) :
    (world.withHost component state container).host? id = some host := by
  obtain ⟨below, -⟩ := Array.getElem?_eq_some_iff.mp found
  show (world.hosts.push _)[id]? = some host
  rw [Array.getElem?_push_lt below, ← Array.getElem?_eq_getElem below]
  exact found

/-- The host that is new has the last place. -/
theorem host?_of_withHost {world : World} {component : Component Script} {state : TargetId}
    {container : NodeId} {id : HostId} {host : Host}
    (found : (world.withHost component state container).host? id = some host) :
    world.host? id = some host ∨
      (id = world.hosts.size ∧ host = { component, state, container, hooks := component.hooks }) := by
  have looked : (world.hosts.push _)[id]? = some host := found
  rw [Array.getElem?_push] at looked
  split at looked
  · rename_i last
    cases looked
    exact Or.inr ⟨last, rfl⟩
  · exact Or.inl looked

/-- A host that changes may refer to further effects. -/
theorem refersAt_modifyHost {world : World} {id : HostId} {change : Host → Host}
    {further : EffectId → Prop} (effects : ∀ host, ∀ effect ∈ (change host).bindings.effects,
      effect ∈ host.bindings.effects ∨ further effect)
    (renderer : ∀ host effect, (change host).renderEffect = some effect →
      host.renderEffect = some effect ∨ further effect) (effect : EffectId) (place : Place)
    (refers : (world.modifyHost id change).RefersAt effect place) :
    world.RefersAt effect place ∨ further effect := by
  cases place with
  | names => exact Or.inl refers
  | bindings => exact Or.inl refers
  | content other =>
      obtain ⟨found, looked, listed⟩ := refers
      rw [host?_modifyHost] at looked
      split at looked
      · obtain ⟨host, known, changed⟩ := Option.map_eq_some_iff.mp looked
        exact (effects host effect (changed ▸ listed)).imp_left fun old => ⟨host, known, old⟩
      · exact Or.inl ⟨found, looked, listed⟩
  | renderer other =>
      obtain ⟨found, looked, renders⟩ := refers
      rw [host?_modifyHost] at looked
      split at looked
      · obtain ⟨host, known, changed⟩ := Option.map_eq_some_iff.mp looked
        exact (renderer host effect (changed ▸ renders)).imp_left fun old => ⟨host, known, old⟩
      · exact Or.inl ⟨found, looked, renders⟩

/-- Names that change may refer to further effects. -/
theorem refersAt_names {world : World} {names : Names} {further : EffectId → Prop}
    (effects : ∀ entry ∈ names.effects, (∃ old ∈ world.names.effects, old.2 = entry.2) ∨
      further entry.2)
    (bindings : ∀ entry ∈ names.bindings, ∀ id ∈ entry.2.effects,
      (∃ old ∈ world.names.bindings, id ∈ old.2.effects) ∨ further id) (id : EffectId) (place : Place)
    (refers : ({ world with names } : World).RefersAt id place) :
    world.RefersAt id place ∨ further id := by
  cases place with
  | names =>
      obtain ⟨entry, member, same⟩ := refers
      exact same ▸ effects entry member
  | bindings =>
      obtain ⟨entry, member, listed⟩ := refers
      exact bindings entry member id listed
  | content host => exact Or.inl refers
  | renderer host => exact Or.inl refers

/-- A host may change while it keeps its identity, and refer to effects that are new. -/
theorem Later.modifyHost {origin world : World} (later : origin.Later world) (id : HostId)
    (change : Host → Host) (container : ∀ host, (change host).container = host.container)
    (state : ∀ host, (change host).state = host.state)
    (alive : ∀ host, (change host).alive = true → host.alive = true)
    (effects : ∀ host, ∀ effect ∈ (change host).bindings.effects,
      effect ∈ host.bindings.effects ∨
        (origin.graph.effects.size ≤ effect ∧ effect < world.graph.effects.size))
    (renderer : ∀ host effect, (change host).renderEffect = some effect →
      host.renderEffect = some effect ∨
        (origin.graph.effects.size ≤ effect ∧ effect < world.graph.effects.size)) :
    origin.Later (world.modifyHost id change) := by
  refine later.refer rfl rfl rfl rfl ?_ ?_
  · intro other host found
    rw [host?_modifyHost]
    by_cases same : id = other
    · rw [if_pos same, found]
      exact ⟨change host, rfl, container host, state host, alive host⟩
    · rw [if_neg same]
      exact ⟨host, found, rfl, rfl, fun lives => lives⟩
  · exact fun effect place refers => refersAt_modifyHost effects renderer effect place refers

/-- Most changes of a host concern neither its effects nor its identity. -/
theorem later_modifyHost (world : World) (id : HostId) (change : Host → Host)
    (container : ∀ host, (change host).container = host.container)
    (state : ∀ host, (change host).state = host.state)
    (alive : ∀ host, (change host).alive = true → host.alive = true)
    (bindings : ∀ host, (change host).bindings = host.bindings ∨ (change host).bindings = {})
    (renderer : ∀ host, (change host).renderEffect = host.renderEffect ∨
      (change host).renderEffect = none) : world.Later (world.modifyHost id change) := by
  refine (Later.refl world).modifyHost id change container state alive ?_ ?_
  · intro host effect listed
    rcases bindings host with same | empty
    · exact Or.inl (same ▸ listed)
    · rw [empty] at listed
      cases listed
  · intro host effect renders
    rcases renderer host with same | none
    · exact Or.inl (same ▸ renders)
    · rw [none] at renders
      cases renders

theorem later_endHost (world : World) (id : HostId) : world.Later (world.endHost id) := by
  unfold endHost
  split
  · exact .refl world
  · rename_i host found
    have ended := later_modifyHost world id
      (fun host => { host with alive := false, bindings := {}, renderEffect := none })
      (fun _ => rfl) (fun _ => rfl) (fun _ impossible => by cases impossible)
      (fun _ => Or.inr rfl) (fun _ => Or.inr rfl)
    dsimp only
    split
    · exact (ended.trans (later_disposeEffect _ _)).trans (later_disposeBindings _ _)
    · exact ended.trans (later_disposeBindings _ _)

theorem store?_modifyStore (world : World) (id other : TargetId) (change : Store → Store) :
    (world.modifyStore id change).store? other =
      if id = other then (world.store? other).map change else world.store? other := by
  by_cases same : id = other
  · subst same
    cases found : world.targets[id]? with
    | none => simp [modifyStore, store?, Array.getElem?_modify, found]
    | some target => cases target <;> simp [modifyStore, store?, Array.getElem?_modify, found]
  · simp [modifyStore, store?, Array.getElem?_modify, same]

theorem store?_addTarget {world : World} (store : Option Store) {id : TargetId} {known : Store}
    (found : world.store? id = some known) : (world.addTarget store).2.store? id = some known := by
  obtain ⟨below, -⟩ := Array.getElem?_eq_some_iff.mp (Option.join_eq_some_iff.mp found)
  show ((world.targets.push store)[id]?).join = some known
  rw [Array.getElem?_push_lt below, ← Array.getElem?_eq_getElem below]
  exact found

theorem isAlive_modifyStore {world : World} {state : TargetId} {change : Store → Store}
    (alive : ∀ store, (change store).alive = store.alive) (other : TargetId) :
    (world.modifyStore state change).isAlive other = world.isAlive other := by
  unfold isAlive
  rw [store?_modifyStore]
  split
  · cases world.store? other with
    | none => rfl
    | some store => exact alive store
  · rfl

/-- A target that is new ends no state. -/
theorem isAlive_addTarget {world : World} (store : Option Store) {state : TargetId}
    (alive : world.isAlive state = true) : (world.addTarget store).2.isAlive state = true := by
  unfold isAlive at alive ⊢
  cases found : world.store? state with
  | none =>
      rw [found] at alive
      cases alive
  | some known =>
      rw [found] at alive
      rwa [store?_addTarget store found]

/-- A change of a store keeps the end of the state and the names of its methods. -/
theorem later_modifyStore (world : World) (id : TargetId) (change : Store → Store)
    (alive : ∀ store, (change store).alive = true → store.alive = true)
    (methods : ∀ store name, store.methods.contains name = true →
      (change store).methods.contains name = true) : world.Later (world.modifyStore id change) := by
  refine .of_stores rfl rfl rfl rfl rfl fun other store found => ?_
  rw [store?_modifyStore, found]
  split
  · exact ⟨change store, rfl, alive store, methods store⟩
  · exact ⟨store, rfl, fun lives => lives, fun _ known => known⟩

/-- A state that ends frees its target. -/
theorem later_endState {world : World} {id : TargetId} {store : Store}
    (found : world.store? id = some store) : world.Later (world.endState id) := by
  have ended := later_modifyStore world id (fun store => { store with alive := false })
    (fun _ impossible => by cases impossible) (fun _ _ known => known)
  refine ended.trans (.of_graph (.single _ (.released id) trivial) ?_
    (Graph.stack_release _ id) rfl rfl rfl (Nat.le_refl _) (List.suffix_refl _))
  intro target member
  cases List.mem_singleton.mp member
  refine Or.inr ⟨{ store with alive := false }, ?_, rfl⟩
  show (world.modifyStore id fun store => { store with alive := false }).store? id = _
  rw [store?_modifyStore, if_pos rfl, found]
  rfl

theorem later_endStates (world : World) (ids : List TargetId)
    (known : ∀ id ∈ ids, (world.store? id).isSome = true) :
    world.Later (ids.foldl endState world) := by
  induction ids generalizing world with
  | nil => exact .refl world
  | cons id rest inductionHypothesis =>
      obtain ⟨store, found⟩ := Option.isSome_iff_exists.mp (known id List.mem_cons_self)
      have ended := later_endState found
      refine ended.trans (inductionHypothesis _ fun other member => ?_)
      obtain ⟨old, looked⟩ := Option.isSome_iff_exists.mp (known other (List.mem_cons_of_mem _ member))
      obtain ⟨newer, still, -⟩ := ended.stores other old looked
      rw [still]
      rfl

theorem isSome_store?_of_mem_statesToEnd {world : World} {id : TargetId}
    (member : id ∈ world.statesToEnd) : (world.store? id).isSome = true := by
  have alive := ((mem_statesToEnd world id).mp member).1
  unfold isAlive at alive
  cases found : world.store? id with
  | none =>
      rw [found] at alive
      cases alive
  | some store => rfl

theorem later_rounds (world : World) : world.Later (world.statesToEnd.foldl endState world) :=
  later_endStates world _ fun _ member => isSome_store?_of_mem_statesToEnd member

theorem later_collect (world : World) : world.Later world.collect :=
  collect_of_rounds Later .refl .trans later_rounds (fun world => later_foldl later_endHost world _) world

theorem later_holds (world : World) (holds : List Hold) : world.Later { world with holds } :=
  .of_same rfl rfl rfl rfl (Nat.le_refl _) (List.suffix_refl _)

/-- What an operation held may be collected when it ends. -/
theorem later_closing (world : World) (holds : List Hold) :
    world.Later { world with holds }.collect :=
  (later_holds world holds).trans (later_collect _)

/-! Frames. -/

/-- This is the world with a frame on the stack. -/
def entered (world : World) (frame : Option EffectId) : World :=
  { world with graph := world.graph.moved (.entered frame) }

/-- A frame that is taken off leaves the stack as it was. -/
theorem Later.leave {before after : World} {frame : Option EffectId}
    (allowed : before.graph.Allows (.entered frame)) (later : (before.entered frame).Later after) :
    before.Later { after with graph := after.graph.pop } where
  moves := by
    obtain ⟨moves, path, frees⟩ := later.moves
    have whole := ((Graph.Path.single before.graph (.entered frame) allowed).append path).append
      (.single after.graph .left trivial)
    refine ⟨_, whole, fun target released => ?_⟩
    rcases List.mem_append.mp released with impossible | inside
    · cases List.mem_singleton.mp impossible
    · rcases List.mem_append.mp inside with released | impossible
      · exact frees target released
      · cases List.mem_singleton.mp impossible
  stack := by
    show after.graph.stack.tail = before.graph.stack
    rw [later.stack, entered, Graph.stack_moved]
    rfl
  effects := Nat.le_trans (Graph.size_moved before.graph (.entered frame)) later.effects
  deeds := later.deeds
  nodes := later.nodes
  stores := later.stores
  hosts := later.hosts
  inherits id place old refers :=
    later.inherits id place
      (Nat.lt_of_lt_of_le old (Graph.size_moved before.graph (.entered frame))) refers
  sound sound := later.sound fun id place refers =>
    Nat.lt_of_lt_of_le (sound id place refers) (Graph.size_moved before.graph (.entered frame))

end World

/-- A frame is taken off however the code in it ends. -/
theorem Live.Follows.inFrame {A : Type} {conduct : Conduct} {frame : Option EffectId}
    {action : Live A} {world : World}
    (ends : conduct.Ends (world.entered frame) (action { world with graph := world.graph.push frame }))
    (calm : ∀ after, conduct.calm (world.entered frame) after →
      conduct.calm world { after with graph := after.graph.pop }.collect)
    (broken : ∀ after, conduct.broken (world.entered frame) after →
      conduct.broken world { after with graph := after.graph.pop }.collect) :
    Live.Follows conduct (Live.inFrame frame action) world :=
  Live.ends_ending (show conduct.Ends _ (action { world with graph := world.graph.push frame }) from ends)
    calm broken

/-- An effect that runs enters the stack, and its code starts there. -/
theorem Live.Follows.runEffect {conduct : Conduct} {run : Runner} {id : EffectId} {world : World}
    (keeps : run.Keeps conduct) (notes : ∀ notice, conduct.calm world (world.note notice))
    (frames : world.graph.Allows (.entered (some id)) → ∀ action : Live Unit,
      conduct.Ends (world.entered (some id))
        (action { world with graph := world.graph.push (some id) }) →
      Live.Follows conduct (Live.inFrame (some id) action) world)
    (fits : ∀ effect, world.graph.effect? id = some effect →
      conduct.fits (.task effect.task) (world.entered (some id)) := by exact fun _ _ => trivial) :
    Live.Follows conduct (Live.runEffect run id) world := by
  refine Live.Follows.asks ?_
  split
  · exact Live.Follows.pure _
  · rename_i effect found
    split
    · exact Live.Follows.pure _
    · rename_i lasting
      split
      · exact Live.Follows.modifies (notes _)
      · rename_i idle
        have allowed : world.graph.Allows (.entered (some id)) :=
          ⟨effect, found, Bool.eq_false_iff.mpr lasting, Bool.eq_false_iff.mpr idle⟩
        exact frames allowed _
          (keeps (.task effect.task) (world.entered (some id)) (fits effect found)).discard

/-- This conduct leads to later worlds, however code ends. -/
def Conduct.lasting : Conduct := .always World.Later World.Later.refl World.Later.trans

namespace Lasting

open Live

variable {run : Runner} {world : World} {A : Type}

/-- A new effect lies between the sizes of the graph before and after. -/
theorem bounds_of_makes {origin : World} {id : EffectId} {task : Task}
    (makes : Conduct.lasting.Makes task origin id world) :
    origin.graph.effects.size ≤ id ∧ id < world.graph.effects.size := by
  obtain ⟨before, label, captures, since, number, later⟩ := makes
  have grown : (before.withEffect label task captures).graph.effects.size =
      before.graph.effects.size + 1 := by
    simp [World.withEffect, Graph.create]
  have least := since.effects
  have most := later.effects
  rw [grown] at most
  rw [number]
  exact ⟨least, most⟩

theorem bounds_of_begets {origin : World} {id : EffectId}
    (begets : Conduct.lasting.Begets origin id world) :
    origin.graph.effects.size ≤ id ∧ id < world.graph.effects.size := by
  obtain ⟨_, -, makes⟩ := begets
  exact bounds_of_makes makes

theorem modifies_same {change : World → World} (same : world.Later (change world)) :
    Follows Conduct.lasting (modify change) world := Follows.modifies same

theorem note (notice : Notice) : Follows Conduct.lasting (Live.note notice) world :=
  modifies_same (World.later_note world notice)

theorem attest (deed : Deed) : Follows Conduct.lasting (Live.attest deed) world :=
  modifies_same (.attest world deed)

theorem hold (held : Hold) : Follows Conduct.lasting (Live.hold held) world := by
  refine modifies_same ?_
  split
  · exact .refl world
  · exact World.later_holds world _

theorem modifyForest {change : Forest Handler → Forest Handler}
    (grows : world.forest.size ≤ (change world.forest).size) :
    Follows Conduct.lasting (Live.modifyForest change) world :=
  modifies_same (.of_forest world _ grows)

theorem track (target : TargetId) (key : Key) :
    Follows Conduct.lasting (Live.track target key) world :=
  modifies_same (.of_move world (.tracked ⟨target, key⟩) trivial (Graph.stack_track _ _)
    fun _ impossible => by cases impossible)

theorem inFrame {frame : Option EffectId} {action : Live A}
    (allowed : world.graph.Allows (.entered frame))
    (ends : Conduct.lasting.Ends (world.entered frame)
      (action { world with graph := world.graph.push frame })) :
    Follows Conduct.lasting (Live.inFrame frame action) world := by
  have left : ∀ after, (world.entered frame).Later after →
      world.Later { after with graph := after.graph.pop }.collect :=
    fun _ later => (later.leave allowed).trans (World.later_collect _)
  exact Follows.inFrame ends left left

theorem untracked (action : Live A) (world : World)
    (follows : Follows Conduct.lasting action { world with graph := world.graph.push none }) :
    Follows Conduct.lasting (Live.untracked action) world := inFrame trivial follows

theorem runEffect (keeps : run.Keeps Conduct.lasting) (id : EffectId) (world : World) :
    Follows Conduct.lasting (Live.runEffect run id) world :=
  Follows.runEffect keeps (World.later_note world) fun allowed _ ends => inFrame allowed ends

/-- What a host is told changes its story only. -/
theorem later_tell (id : HostId) (milestone : Milestone) (world : World) :
    world.Later (world.tell id milestone) :=
  World.later_modifyHost world id _ (fun _ => rfl) (fun _ => rfl) (fun _ lives => lives)
    (fun _ => Or.inl rfl) (fun _ => Or.inl rfl)

/-- An effect that is made lasts from then on. -/
theorem later_withEffect (label : String) (task : Task) (captures : List TargetId) (world : World) :
    world.Later (world.withEffect label task captures) :=
  .of_move world (.created label task captures) trivial rfl fun _ impossible => by cases impossible

/-- Names change without new references to effects that existed before. -/
theorem later_names {origin : World} (later : origin.Later world) (names : Names)
    (effects : ∀ entry ∈ names.effects, (∃ old ∈ world.names.effects, old.2 = entry.2) ∨
      (origin.graph.effects.size ≤ entry.2 ∧ entry.2 < world.graph.effects.size))
    (bindings : ∀ entry ∈ names.bindings, ∀ id ∈ entry.2.effects,
      (∃ old ∈ world.names.bindings, id ∈ old.2.effects) ∨
        (origin.graph.effects.size ≤ id ∧ id < world.graph.effects.size)) :
    origin.Later { world with names } := by
  exact later.refer rfl rfl rfl rfl (fun id host found => ⟨host, found, rfl, rfl, fun lives => lives⟩)
    (World.refersAt_names effects bindings)

theorem plain : Plain Conduct.lasting where
  finishes _ _ _ := .of_same rfl rfl rfl rfl (Nat.le_refl _) (List.suffix_refl _)
  notes notice world := World.later_note world notice
  meets _ _ := .of_same rfl rfl rfl rfl (Nat.le_refl _) (List.suffix_refl _)
  parses _ _ := .of_same rfl rfl rfl rfl (Nat.le_refl _) (List.suffix_refl _)
  holds held _ := hold held
  operates _ world follows := follows.ending fun after => World.later_closing after world.holds
  letsGo _ world := modifies_same (World.later_closing world _)
  untracks := untracked
  tracks target key _ _ := track target key
  tracksByHand target key := .trackByHand (fun _ => attest _) fun _ => track target key
  nodes _ world := later_names (.refl world) _
    (fun entry member => Or.inl ⟨entry, member, rfl⟩)
    (fun entry member _ listed => Or.inl ⟨entry, member, listed⟩)

theorem trigger (keeps : run.Keeps Conduct.lasting) (target : TargetId) (name : String)
    (world : World) : Follows Conduct.lasting (Live.trigger run target name) world :=
  plain.trigger (fun _ after => World.later_holds after _) (runEffect keeps) target name world

/-- A new host has no effects. -/
theorem later_withHost (component : Component Script) (state : TargetId) (container : NodeId)
    (world : World) : world.Later (world.withHost component state container) := by
  refine (World.Later.refl world).refer rfl rfl rfl rfl ?_ ?_
  · intro id known found
    exact ⟨known, World.host?_withHost_of_some component state container found, rfl, rfl,
      fun lives => lives⟩
  · intro id place refers
    cases place with
    | names => exact Or.inl refers
    | bindings => exact Or.inl refers
    | content other =>
        obtain ⟨found, looked, listed⟩ := refers
        rcases World.host?_of_withHost looked with old | ⟨-, rfl⟩
        · exact Or.inl ⟨found, old, listed⟩
        · cases listed
    | renderer other =>
        obtain ⟨found, looked, renders⟩ := refers
        rcases World.host?_of_withHost looked with old | ⟨-, rfl⟩
        · exact Or.inl ⟨found, old, renders⟩
        · cases renders

theorem putValue (state : TargetId) (key : String) (value : Value) :
    Follows Conduct.lasting (Live.putValue state key value) world :=
  modifies_same (World.later_modifyStore world state _ (fun _ lives => lives) fun _ _ known => known)

theorem contains_put {B : Type} (entries : Dictionary B) (key name : String) (value : B)
    (known : Assoc.contains entries name = true) :
    Assoc.contains (entries.put key value) name = true := by
  unfold Assoc.contains at known ⊢
  by_cases same : name = key
  · rw [same, Assoc.get?_put]
    rfl
  · rw [Assoc.get?_put_of_ne entries value same]
    exact known

theorem writeValue (keeps : run.Keeps Conduct.lasting) (state : TargetId) (key : String)
    (value : Value) (world : World) :
    Follows Conduct.lasting (Live.writeValue run state key value) world :=
  plain.writeValue (putValue state key value) (trigger keeps state key)

theorem presetValue (state : TargetId) (key : String) (value : Value) (world : World) :
    Follows Conduct.lasting (Live.presetValue state key value) world :=
  plain.presetValue (fun _ => attest _) (fun _ => putValue state key value) world

/-- A target that is released by hand is freed by a deed. -/
theorem releaseTarget (target : TargetId) (world : World) :
    Follows Conduct.lasting (Live.releaseTarget target) world := by
  have released : world.Later
      { world.attest (.released target) with graph := world.graph.release target } := by
    refine .of_graph (.single world.graph (.released target) trivial) ?_
      (Graph.stack_release _ target) rfl rfl rfl (Nat.le_refl _) (List.suffix_cons _ _)
    intro other member
    cases List.mem_singleton.mp member
    exact Or.inl ⟨[.released target], rfl, List.mem_singleton_self _⟩
  exact released

theorem dropBindings (id : HostId) (world : World) :
    Follows Conduct.lasting (Live.dropBindings id) world := by
  refine Follows.asks ?_
  split
  · exact Follows.pure _
  · rename_i host _
    have emptied := World.later_modifyHost world id (fun host => { host with bindings := {} })
      (fun _ => rfl) (fun _ => rfl) (fun _ lives => lives) (fun _ => Or.inr rfl)
      (fun _ => Or.inl rfl)
    exact (modifies_same emptied).bind fun _ after _ => modifies_same
      ((World.later_disposeBindings after host.bindings).trans (World.later_collect _))

/-- A host may refer to the bindings that were made for it. -/
theorem installContent (id : HostId) (host : Host) (bindings : Bindings) (fragment : NodeId)
    (origin world : World) (later : origin.Later world)
    (begets : ∀ effect ∈ bindings.effects, Conduct.lasting.Begets origin effect world) :
    Conduct.lasting.Ends origin (Live.installContent id host bindings fragment world) := by
  have shown : ∀ deed, origin.Later { world.attest deed with
      forest := (world.forest.clear host.container).append host.container fragment } :=
    fun deed => later.trans (.of_same rfl rfl rfl rfl
      (by simp [Forest.size_append, Forest.size_clear]) (List.suffix_cons _ _))
  refine (shown _).modifyHost id (fun host => { host with bindings, renders := host.renders + 1 })
    (fun _ => rfl) (fun _ => rfl) (fun _ lives => lives) ?_ (fun _ _ renders => Or.inl renders)
  intro _ effect listed
  have bounds := bounds_of_begets (begets effect listed)
  exact Or.inr bounds

theorem removeContent (id : HostId) (host : Host) (world : World) :
    Follows Conduct.lasting (Live.removeContent id host) world :=
  Follows.asks ((attest _).bind fun _ after _ =>
    (modifyForest (Nat.le_of_eq (Forest.size_clear after.forest host.container).symm)).bind
      fun _ cleared _ => modifies_same (World.later_modifyHost cleared id _ (fun _ => rfl)
        (fun _ => rfl) (fun _ lives => lives) (fun _ => Or.inl rfl) (fun _ => Or.inl rfl)))

theorem basic (keeps : run.Keeps Conduct.lasting) : Basic Conduct.lasting run where
  toPlain := plain
  keeps := keeps
  breaks later := later
  records _ _ := .of_same rfl rfl rfl rfl (Nat.le_refl _) (List.suffix_refl _)
  tracksHost _ host key _ _ _ := track host.state key
  names names world rearranged := later_names (.refl world) names
    (fun entry member => Or.inl (rearranged.effects entry member))
    (fun entry member id listed => Or.inl (rearranged.bindings entry member id listed))
  recovers _ _ broken :=
    broken.trans (.of_same rfl rfl rfl rfl (Nat.le_refl _) (List.suffix_cons _ _))
  emits id _ world _ := later_tell id _ world

theorem primitive (keeps : run.Keeps Conduct.lasting) :
    Primitive Conduct.lasting run fun _ => False where
  toBasic := basic keeps
  collects := World.later_collect
  addsTarget store world _ := .of_stores rfl rfl rfl rfl rfl fun _ known found =>
    ⟨known, World.store?_addTarget store found, fun lives => lives, fun _ listed => listed⟩
  presets := presetValue
  writes := writeValue keeps
  addsMethod state name method world := modifies_same (World.later_modifyStore world state _
    (fun _ lives => lives) fun store other known => contains_put store.methods name other method known)
  starts label task captures world _ := later_withEffect label task captures world
  runsEffect id world _ := runEffect keeps id world
  triggers := trigger keeps
  releases := releaseTarget
  disposes id _ world later _ := later.trans (World.later_disposeEffect world id)
  namesEffect name id origin world later begets := by
    refine later_names later _ (fun entry member => ?_) (fun entry member _ listed =>
      Or.inl ⟨entry, member, listed⟩)
    rcases Assoc.mem_put member with new | old
    · exact Or.inr (new ▸ bounds_of_begets begets)
    · exact Or.inl ⟨entry, old, rfl⟩
  namesBindings name bindings origin world later begets := by
    refine later_names later _ (fun entry member => Or.inl ⟨entry, member, rfl⟩)
      (fun entry member id listed => ?_)
    rcases Assoc.mem_put member with new | old
    · subst new
      exact Or.inr (bounds_of_begets (begets id listed))
    · exact Or.inl ⟨entry, old, listed⟩
  createsNode content world :=
    .of_forest world _ (by rw [Forest.size_create]; exact Nat.le_succ _)
  plants trees world := .of_forest world _ (Forest.size_plantFragment world.forest trees)
  setsValue node value world :=
    .of_forest world _ (Nat.le_of_eq (Forest.size_setValue world.forest node value).symm)
  listens node kind handler world :=
    .of_forest world _ (Nat.le_of_eq (Forest.size_listen world.forest node kind handler).symm)
  edits _ _ _ grows _ _ := .of_same rfl rfl rfl rfl grows (List.suffix_cons _ _)
  shows node text world := Follows.asks ((attest _).bind fun _ after _ =>
    modifyForest (Forest.size_setTextContent after.forest node text))
  tells id milestone world _ := later_tell id milestone world
  addsHost component state container _ world later _ _ :=
    later.trans (later_withHost component state container world)
  startsRenderer label id world := later_withEffect label (.render id) [] world
  runsRenderer := runEffect keeps
  rendersBy id effect origin world later makes := by
    refine later.modifyHost id _ (fun _ => rfl) (fun _ => rfl) (fun _ lives => lives)
      (fun _ _ listed => Or.inl listed) (fun _ other renders => ?_)
    cases renders
    exact Or.inr (bounds_of_makes makes)
  namesHost _ _ world := later_names (.refl world) _
    (fun entry member => Or.inl ⟨entry, member, rfl⟩)
    (fun entry member _ listed => Or.inl ⟨entry, member, listed⟩)
  mounts id world _ := World.later_modifyHost world id _ (fun _ => rfl) (fun _ => rfl)
    (fun _ lives => lives) (fun _ => Or.inl rfl) (fun _ => Or.inl rfl)
  changesTemplate id template world := World.later_modifyHost world id _ (fun _ => rfl)
    (fun _ => rfl) (fun _ lives => lives) (fun _ => Or.inl rfl) (fun _ => Or.inl rfl)
  hooks id kind body world := World.later_modifyHost world id _ (fun _ => rfl) (fun _ => rfl)
    (fun _ lives => lives) (fun _ => Or.inl rfl) (fun _ => Or.inl rfl)
  templates id template world _ := .attest world _
  dropsContent id world _ := dropBindings id world
  installs id host bindings fragment origin world _ :=
    installContent id host bindings fragment origin world
  removes id host world _ := removeContent id host world
  rendersOwn _ _ impossible := impossible.elim
  mountsOwn _ _ impossible := impossible.elim
  rerendersOwn _ _ impossible := impossible.elim
  destroysOwn _ _ impossible := impossible.elim

end Lasting

/-- Whatever code runs, it leads to a later world. -/
theorem lawful_lasting (depth : Nat) : Lawful Conduct.lasting (Live.runTo depth) :=
  (Lasting.primitive (Runner.keeps_runTo World.Later.refl
    (fun _ keeps => (Lasting.primitive keeps).lawful) depth)).lawful

end LiveMarkup
