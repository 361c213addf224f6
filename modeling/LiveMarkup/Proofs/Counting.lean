import LiveMarkup.Proofs.CounterContent
import LiveMarkup.Proofs.Remarks
import LiveMarkup.Proofs.Replacing

/-
This file follows the counter from one write of its count to the next. Each write is shown by one render, which
replaces the content and wires the new buttons, and leaves the counter ready for the next write.
-/

namespace LiveMarkup

open Live

/-- A disposed effect depends on nothing, so no write concerns it. -/
theorem Graph.Agrees.isDisposed_of_concerned {Task : Type} {graph : Graph Task} (agrees : graph.Agrees)
    {target : TargetId} {name : String} {id : EffectId} (member : id ∈ graph.concerned target name) :
    graph.isDisposed id = false := by
  have listed : ∃ dependency, id ∈ graph.subscribersOf dependency :=
    ((Graph.mem_concerned graph target name id).mp member).elim (⟨_, ·⟩) (⟨_, ·⟩)
  obtain ⟨dependency, subscribed⟩ := listed
  obtain ⟨effect, found, depends⟩ := (agrees.listed id dependency).mp subscribed
  unfold Graph.isDisposed
  rw [found, Option.any_some]
  cases gone : effect.disposed with
  | false => rfl
  | true =>
      rw [agrees.disposed id effect found gone] at depends
      cases depends

namespace Demo

variable {world : World}

/-- A button that is found is wired: it hears clicks, and the script goes on. -/
theorem performAll_wireButton (run : Runner) (arguments : List Value) (last : Value) (rest : Script)
    {button selector : String} (step : Int) {container node : NodeId} (homed : world.Homed)
    (named : world.names.nodes.get? (rootName counterName) = some container) (other : button ≠ rootName counterName)
    (found : world.forest.query? container selector = some node) :
    ∃ given nodes happenings,
      performAll run arguments last (wireButton button selector step ++ rest) world =
        performAll run arguments given rest { world with
          forest := world.forest.listen node "click" (stepHandler step)
          names := { world.names with nodes }
          happenings } ∧
      nodes.get? (rootName counterName) = some container := by
  let known := { world with names := { world.names with nodes := world.names.nodes.put button node } }
  have kept : known.Homed := homed.of_same rfl rfl rfl
  have queries : perform run arguments (.node (.query button (rootName counterName) selector)) world =
      .ok (.string (known.describe node)) known := by
    have asks : askForest (rootName counterName) (fun forest id => forest.query? id selector) world =
        .ok (some node) world := by
      unfold askForest
      rw [bind_of_ok (World.nodeNamed_of_found named), get_bind]
      exact congrArg (EStateM.Result.ok · world) found
    exact bind_of_ok asks
  let noted := known.record (.finished "query" (.ok (.string (known.describe node))))
  have still : noted.Homed := kept.of_same rfl rfl rfl
  let wired := { noted with
    forest := noted.forest.listen node "click" (stepHandler step) }
  have listens : perform run arguments (.listen button "click" [.state (.increase counterName countKey step)]) noted =
      .ok .null wired := by
    have finds : nodeNamed button noted = .ok node noted := World.nodeNamed_of_found (Assoc.get?_put _ _ _)
    exact bind_of_ok finds
  have last : wired.Homed := still.of_same rfl rfl rfl
  refine ⟨.null, known.names.nodes, .finished "listen" (.ok .null) :: noted.happenings, ?_, ?_⟩
  · exact (performAll_of_homed queries kept rfl).trans (performAll_of_homed listens last rfl)
  · exact (Assoc.get?_put_of_ne _ _ (Ne.symm other)).trans named

/-- Once the content is placed, the code of the counter finds both buttons and wires them. -/
theorem performRendered_eq (run : Runner) {id : HostId} {record : Host} {root : Nat} (homed : world.Homed)
    (found : world.host? id = some record) (component : record.component = counter)
    (placed : Placed record.container root world.forest) :
    ∃ value nodes happenings, performRendered run id world =
      .ok value { world with forest := wire world.forest root, names := { world.names with nodes }, happenings } := by
  obtain ⟨component', state, container, hooks, mounted, bindings, effect, renders, alive, story⟩ := record
  cases component
  let named := { world with names := { world.names with
    nodes := world.names.nodes.put (rootName counterName) container } }.record (.rendered counterName)
  have kept : named.Homed := homed.of_same rfl rfl rfl
  have increment : "increment" ≠ rootName counterName := by decide
  have decrement : "decrement" ≠ rootName counterName := by decide
  obtain ⟨first, nodes, happenings, increments, known⟩ := performAll_wireButton run [] .null
    (wireButton "decrement" "#dec" (-1)) 1 kept (Assoc.get?_put _ _ _) increment placed.query?_increment
  let wired := { named with
    forest := world.forest.listen (incrementAt root) "click" (stepHandler 1)
    names := { named.names with nodes }
    happenings }
  have still : wired.Homed := kept.of_same rfl rfl rfl
  have again : Placed container root wired.forest :=
    placed.of_shapes (fun _ => Forest.shape?_listen _ _ _ _ _) (Forest.size_listen _ _ _ _)
  obtain ⟨second, more, later, decrements, -⟩ := performAll_wireButton run [] first [] (-1) still known decrement
    again.query?_decrement
  refine ⟨second, more, later, ?_⟩
  have performs : performAll run [] .null
      (wireButton "increment" "#inc" 1 ++ wireButton "decrement" "#dec" (-1)) named =
      .ok second { world with forest := wire world.forest root, names := { world.names with nodes := more }
                              happenings := later } := increments.trans decrements
  unfold performRendered
  rw [get_bind, found]
  show swallowing (performAll run [] .null (wireButton "increment" "#inc" 1 ++ wireButton "decrement" "#dec" (-1)))
    named = _
  unfold swallowing
  rw [tryCatch_apply, performs]

/-- The counter was drawn. Its new content stands in its container, and the effects of the old content are disposed.
Nothing else ends, no key is released, and older nodes hear what they heard. -/
structure Redraws (id : HostId) (record : Host) (before after : World) : Prop where
  homed : after.Homed
  host : ∃ bindings story, after.host? id = some { record with bindings, renders := record.renders + 1, story } ∧
    ∀ effect, effect ∈ bindings.effects ↔ before.graph.effects.size ≤ effect ∧ effect < after.graph.effects.size
  store : after.store? record.state = before.store? record.state
  names : ∃ nodes, after.names = { before.names with nodes }
  deeds : ∃ newer, after.deeds = newer ++ before.deeds ∧ ∀ target, Deed.released target ∉ newer
  disposed : ∀ effect < before.graph.effects.size, after.graph.isDisposed effect = true ↔
    before.graph.isDisposed effect = true ∨ effect ∈ record.bindings.effects
  stands : Stands record.state record.container before.forest.size after.forest
  handlers : ∀ node < before.forest.size, after.forest.handlersAt node = before.forest.handlersAt node
  parents : ∀ node parent, node < before.forest.size → after.forest.parent? node = some parent →
    before.forest.parent? node = some parent

/-- The counter is drawn, and its code wires the new buttons. -/
theorem drawHost_eq {id : HostId} {record : Host} (depth : Nat) (drawable : world.Drawable id record counterTrees)
    (component : record.component = counter) (silent : world.forest.handlersAt record.container = [])
    (quiet : ∀ kind, world.forest.Quiet kind record.container) :
    ∃ drawn, drawHost (runTo (depth + 2)) id world = .ok (.ok ()) drawn ∧ world.Later drawn ∧
      Redraws id record world drawn := by
  obtain ⟨bindings, drawn, draws, renders⟩ := (drawable.tell .began).renderHost_eq (depth + 1)
  have placed : Placed record.container world.forest.size drawn.forest :=
    ⟨drawable.known, draws.children, draws.shows, draws.size⟩
  obtain ⟨value, nodes, happenings, rendered⟩ := performRendered_eq (runTo (depth + 1)) draws.homed draws.host
    component placed
  let wired := { drawn with
    forest := wire drawn.forest world.forest.size, names := { drawn.names with nodes }, happenings }
  have homed : wired.Homed := draws.homed.of_same rfl rfl rfl
  have handlers : ∀ node < world.forest.size, wired.forest.handlersAt node = world.forest.handlersAt node := by
    intro node below
    show (wire drawn.forest world.forest.size).handlersAt node = _
    rw [placed.handlersAt_wire, if_neg (by unfold incrementAt; omega), if_neg (by unfold decrementAt; omega),
      List.append_nil, List.append_nil]
    exact draws.handlers node below
  have parents : ∀ node parent, node < world.forest.size → wired.forest.parent? node = some parent →
      world.forest.parent? node = some parent := by
    intro node parent below found
    rw [Forest.parent?_eq_shape?, shape?_wire, ← Forest.parent?_eq_shape?] at found
    exact draws.parents node parent below found
  have later : drawn.Later wired := by
    have wires : drawn.Later { drawn with forest := wire drawn.forest world.forest.size, happenings } :=
      .of_same rfl rfl rfl rfl (Nat.le_of_eq (size_wire _ _).symm) (List.suffix_refl _)
    exact Lasting.later_names wires { drawn.names with nodes } (fun entry member => Or.inl ⟨entry, member, rfl⟩)
      fun entry member _ bound => Or.inl ⟨entry, member, bound⟩
  have begins : world.Later (world.tell id .began) := Lasting.later_tell id _ _
  refine ⟨wired.tell id .ended, ?_, ((begins.trans draws.later).trans later).trans (Lasting.later_tell id _ _), ?_⟩
  · refine Basic.drawHost_eq_ok.mpr ⟨wired, ?_, rfl⟩
    rw [renders]
    have runs : discard (runTo (depth + 2) (.rendered id)) drawn = .ok () wired := by
      rw [discard_apply, show runTo (depth + 2) (.rendered id) drawn = .ok value wired from rendered]
    rw [bind_of_ok runs]
    rfl
  · exact
      { homed := homed.tell id _
        host := by
          have told := World.host?_modifyHost wired id id fun host => { host with story := .ended :: host.story }
          rw [if_pos rfl, show wired.host? id = drawn.host? id from rfl, draws.host] at told
          exact ⟨bindings, _, told, draws.fresh⟩
        store := draws.store
        names := ⟨nodes, congrArg (fun names : Names => { names with nodes }) draws.names⟩
        deeds := draws.deeds
        disposed := draws.disposed
        stands :=
          { toPlaced := placed.of_shapes (shape?_wire _ _) (size_wire _ _)
            hears := fun node => placed.hears_wire draws.hears
            silent := (handlers _ drawable.known).trans silent
            quiet := fun kind => (quiet kind).of_parents (fun _ => False) drawable.known (fun own => own)
              (fun _ _ _ own => own) (fun node below _ => handlers node below) parents }
        handlers
        parents }

namespace Redraws

variable {id : HostId} {record : Host} {before begun drawn after : World}

/-- What happens before a render but to nodes, states and lives of effects makes no difference to it. -/
theorem since (redraws : Redraws id record begun after) (forest : begun.forest = before.forest)
    (targets : begun.targets = before.targets) (names : begun.names = before.names) (deeds : begun.deeds = before.deeds)
    (size : begun.graph.effects.size = before.graph.effects.size)
    (disposed : ∀ effect, begun.graph.isDisposed effect = before.graph.isDisposed effect) :
    Redraws id record before after where
  homed := redraws.homed
  host := by
    rw [← size]
    exact redraws.host
  store := by
    have same : begun.store? record.state = before.store? record.state := by
      unfold World.store?
      rw [targets]
    exact redraws.store.trans same
  names := names ▸ redraws.names
  deeds := deeds ▸ redraws.deeds
  disposed effect known := by
    rw [← disposed]
    exact redraws.disposed effect (size ▸ known)
  stands := forest ▸ redraws.stands
  handlers := forest ▸ redraws.handlers
  parents := forest ▸ redraws.parents

/-- After a render the host may tell its story, and remarks are made. -/
theorem told (redraws : Redraws id record before drawn) {milestone : Milestone}
    (remarks : (drawn.tell id milestone).Remarks after) : Redraws id record before after := by
  obtain ⟨_, _, _, rfl⟩ := remarks
  obtain ⟨bindings, story, found, fresh⟩ := redraws.host
  have told := World.host?_modifyHost drawn id id fun host => { host with story := milestone :: host.story }
  rw [if_pos rfl, found] at told
  exact
    { redraws with
      homed := (redraws.homed.tell id milestone).of_same rfl rfl rfl
      host := ⟨bindings, _, told, fresh⟩ }

/-- Holds and frames that are taken off afterwards make no difference. -/
theorem leave (redraws : Redraws id record before drawn) (holds : List Hold) :
    Redraws id record before { drawn with holds, graph := drawn.graph.pop } :=
  { redraws with homed := redraws.homed.of_same rfl rfl rfl }

end Redraws

/-- This is the state of the counter. -/
def storeOf (count : Int) : Store where
  values := [(countKey, .integer count)]
  methods := [("greet", .script [.tell .info "hi", .value .null])]

/-- The counter is at a count. One effect draws it, and all other effects that are left are younger and belong to its
content. -/
structure Driven (id : HostId) (renderer : EffectId) (record : Host) (count : Int) (world : World) : Prop where
  reachable : world.Reachable
  sound : world.Sound
  homed : world.Homed
  host : world.host? id = some record
  component : record.component = counter
  alive : record.alive = true
  updates : record.hooks.bodies .update = [[.tell .debug "counter re-rendered"]]
  destroys : record.hooks.bodies .destroy = [[.tell .info "counter destroyed"]]
  named : world.names.states.get? counterName = some record.state
  store : world.store? record.state = some (storeOf count)
  task : world.HasTask renderer (.render id)
  lasting : world.graph.isDisposed renderer = false
  idle : some renderer ∉ world.graph.stack
  depends : world.Depends renderer ⟨record.state, .any⟩
  others : ∀ other < world.graph.effects.size, world.graph.isDisposed other = false →
    other = renderer ∨ other ∈ record.bindings.effects
  younger : ∀ other ∈ record.bindings.effects, renderer < other

/-- The counter is mounted and its content stands, ready for the next write. -/
structure Counting (id : HostId) (renderer : EffectId) (record : Host) (count : Int) (root : NodeId) (world : World) :
    Prop extends Driven id renderer record count world where
  mounted : record.mounted = true
  stands : Stands record.state record.container root world.forest

namespace Driven

variable {id : HostId} {renderer : EffectId} {record : Host} {count : Int}

theorem isAlive (driven : Driven id renderer record count world) : world.isAlive record.state = true := by
  unfold World.isAlive
  rw [driven.store]
  rfl

theorem disposed_eq (driven : Driven id renderer record count world) {effect : Effect Task}
    (found : world.graph.effect? renderer = some effect) : effect.disposed = false := by
  have lasting := driven.lasting
  unfold Graph.isDisposed at lasting
  rwa [found, Option.any_some] at lasting

/-- What is kept aside makes no difference to the counter. -/
theorem aside (driven : Driven id renderer record count world) (parses : ParseCache) (holds : List Hold)
    (happenings : List Happening) (notices : List Notice) :
    Driven id renderer record count { world with parses, holds, happenings, notices } :=
  { driven with homed := driven.homed.of_same rfl rfl rfl }

/-- What a host tells and whether it counts as mounted make no difference, either. -/
theorem modifyHost (driven : Driven id renderer record count world) (mounted : Host → Bool)
    (story : Host → List Milestone) :
    Driven id renderer { record with mounted := mounted record, story := story record } count
      (world.modifyHost id fun host => { host with mounted := mounted host, story := story host }) := by
  have changed := World.host?_modifyHost world id id fun host =>
    { host with mounted := mounted host, story := story host }
  rw [if_pos rfl, driven.host] at changed
  have later := World.later_modifyHost world id (fun host => { host with mounted := mounted host, story := story host })
    (fun _ => rfl) (fun _ => rfl) (fun _ alive => alive) (fun _ => Or.inl rfl) (fun _ => Or.inl rfl)
  exact
    { driven with
      sound := later.sound driven.sound
      homed := driven.homed.modifyHost id fun _ => rfl
      host := changed }

theorem tell (driven : Driven id renderer record count world) (milestone : Milestone) :
    Driven id renderer { record with story := milestone :: record.story } count (world.tell id milestone) :=
  driven.modifyHost Host.mounted fun host => milestone :: host.story

/-- A hook that tells a text makes no difference. -/
theorem emits (depth : Nat) (driven : Driven id renderer record count world) {kind : HookKind} {level : Level}
    {text : String} (bodies : record.hooks.bodies kind = [[.tell level text]]) :
    ∃ after story, emitHost (runTo (depth + 1)) id kind world = .ok () after ∧
      Driven id renderer { record with story } count after ∧ after.forest = world.forest := by
  obtain ⟨after, emits, parses, happenings, notices, rfl⟩ :=
    emitHost_tells depth driven.homed driven.host bodies
  exact ⟨_, _, emits, (driven.tell _).aside parses _ happenings notices, rfl⟩

/-- A counter that is held can be drawn into its container. -/
theorem drawable (driven : Driven id renderer record count world) (held : .host id ∈ world.holds)
    (known : record.container < world.forest.size)
    (near : ∀ child ∈ world.forest.children record.container, child < world.forest.size) :
    world.Drawable id record counterTrees where
  reachable := driven.reachable
  sound := driven.sound
  homed := driven.homed
  found := driven.host
  lives := driven.alive
  alive := driven.isAlive
  held
  parsed := by
    rw [driven.component]
    exact parse_counterTemplate
  free := callFree_counterTrees
  known
  near

/-- A render leaves one effect that draws the counter, and those of the new content. -/
theorem redrawn {next : Int} {begun after : World} (driven : Driven id renderer record count world)
    (redraws : Redraws id record begun after) (later : world.Later after) (names : begun.names = world.names)
    (deeds : begun.deeds = world.deeds) (graph : begun.graph = world.graph)
    (store : begun.store? record.state = some (storeOf next)) :
    ∃ bindings story, Driven id renderer { record with bindings, renders := record.renders + 1, story } next after := by
  obtain ⟨bindings, story, found, fresh⟩ := redraws.host
  obtain ⟨effect, task, -⟩ := driven.task
  have known : renderer < world.graph.effects.size := (Array.getElem?_eq_some_iff.mp task).1
  have stored : after.store? record.state = some (storeOf next) := redraws.store.trans store
  have disposed := redraws.disposed
  rw [graph] at fresh disposed
  refine ⟨bindings, story, ?_⟩
  exact
    { driven with
      reachable := later.reachable driven.reachable
      sound := later.sound driven.sound
      homed := redraws.homed
      host := found
      named := by
        obtain ⟨nodes, same⟩ := redraws.names
        rw [same, names]
        exact driven.named
      store := stored
      task := later.hasTask driven.task
      lasting := by
        rw [← Bool.not_eq_true, disposed renderer known]
        rintro (gone | bound)
        · exact Bool.false_ne_true (driven.lasting.symm.trans gone)
        · exact Nat.lt_irrefl _ (driven.younger renderer bound)
      idle := later.stack ▸ driven.idle
      depends := by
        refine later.depends driven.depends ?_
        rintro (⟨newer, since, released⟩ | ⟨ended, there, gone⟩)
        · obtain ⟨others, appended, kept⟩ := redraws.deeds
          rw [deeds] at appended
          exact kept _ (List.append_cancel_right (since.symm.trans appended) ▸ released)
        · cases stored.symm.trans there
          cases gone
      others := fun other below lasts => by
        by_cases old : other < world.graph.effects.size
        · have left := not_or.mp (mt (disposed other old).mpr (Bool.eq_false_iff.mp lasts))
          exact Or.inl ((driven.others other old (Bool.eq_false_iff.mpr left.1)).resolve_right left.2)
        · exact Or.inr ((fresh other).mpr ⟨Nat.le_of_not_lt old, below⟩)
      younger := fun other bound => Nat.lt_of_lt_of_le known ((fresh other).mp bound).1 }

/-- A counter that is mounted is drawn for the first time. -/
theorem mountHost_eq (depth : Nat) (driven : Driven id renderer record count world)
    (mounts : record.hooks.bodies .mount = [[.tell .info "counter mounted"]]) (held : .host id ∈ world.holds)
    (known : record.container < world.forest.size)
    (near : ∀ child ∈ world.forest.children record.container, child < world.forest.size)
    (silent : world.forest.handlersAt record.container = [])
    (quiet : ∀ kind, world.forest.Quiet kind record.container) :
    ∃ after newer, mountHost (runTo (depth + 2)) id world = .ok (.ok ()) after ∧
      Counting id renderer newer count world.forest.size after ∧ newer.renders = record.renders + 1 ∧
      newer.state = record.state ∧ newer.container = record.container := by
  have asked := driven.tell (.asked .mount)
  obtain ⟨drawn, draws, later, redraws⟩ := drawHost_eq depth (asked.drawable held known near) driven.component silent
    quiet
  obtain ⟨bindings, story, redrawn⟩ := asked.redrawn redraws later rfl rfl rfl driven.store
  have mounted := (redrawn.tell (.answered .mount)).modifyHost (fun _ => true) Host.story
  have noted := mounted.aside drawn.parses drawn.holds drawn.happenings
    (.hostMounted record.component.selector :: drawn.notices)
  obtain ⟨after, told, emits, final, same⟩ := noted.emits (depth + 1) mounts
  refine ⟨after, _, ?_, ⟨final, rfl, ?_⟩, rfl, rfl, rfl⟩
  · unfold mountHost
    rw [bind_of_ok (show Live.tell id (.asked .mount) world = .ok () _ from rfl), bind_of_ok draws]
    dsimp only
    rw [bind_of_ok (show Live.tell id (.answered .mount) drawn = .ok () _ from rfl),
      bind_of_ok (show Live.modifyHost id (fun host => { host with mounted := true }) _ = .ok () _ from rfl), get_bind,
      mounted.host, bind_of_ok (show note _ _ = .ok () _ from rfl)]
    exact bind_of_ok emits
  · rw [same]
    exact redraws.stands

end Driven

namespace Counting

variable {id : HostId} {renderer : EffectId} {record : Host} {count : Int} {root : NodeId}

theorem aside (counting : Counting id renderer record count root world) (parses : ParseCache) (holds : List Hold)
    (happenings : List Happening) (notices : List Notice) :
    Counting id renderer record count root { world with parses, holds, happenings, notices } :=
  { counting with toDriven := counting.toDriven.aside parses holds happenings notices }

/-- The effect that draws the counter runs: it draws the counter, and the counter tells of it. -/
theorem rerender_eq (depth : Nat) (counting : Counting id renderer record count root world)
    (allowed : world.graph.Allows (.entered (some renderer))) :
    ∃ after, rerender (runTo (depth + 2)) id (world.entered (some renderer)) = .ok () after ∧
      Redraws id record world after := by
  let entered := world.entered (some renderer)
  obtain ⟨holds, held⟩ := World.hold_eq (.host id) entered
  have member : Hold.host id ∈ holds := mem_holds_of_hold held
  let begun : World := { entered with holds, graph := entered.graph.track ⟨record.state, .any⟩ }
  have reachable : begun.Reachable := by
    obtain ⟨moves, path⟩ := counting.reachable
    exact ⟨_, (path.step (.entered (some renderer)) allowed).step (.tracked ⟨record.state, .any⟩) trivial⟩
  have size : begun.graph.effects.size = world.graph.effects.size :=
    (Graph.size_track _ _).trans (World.size_entered world _)
  have sound : begun.Sound := fun effect place refers => by
    rw [size]
    exact counting.sound effect place refers
  have drawable : begun.Drawable id record counterTrees := by
    have near : ∀ child ∈ world.forest.children record.container, child < world.forest.size := fun child listed => by
      rw [counting.stands.children] at listed
      exact Nat.lt_of_lt_of_le (Markup.bounds_of_mem_places _ _ child listed).2 counting.stands.known
    have aside := counting.toDriven.aside world.parses holds world.happenings world.notices
    exact
      { aside.drawable member counting.stands.container_lt near with
        reachable, sound, homed := counting.homed.of_same rfl rfl rfl }
  obtain ⟨drawn, draws, -, redraws⟩ := drawHost_eq depth drawable counting.component counting.stands.silent
    counting.stands.quiet
  obtain ⟨bindings, story, found, -⟩ := redraws.host
  obtain ⟨after, emits, remarks⟩ := emitHost_tells (depth + 1) redraws.homed found counting.updates
  have told := redraws.told remarks
  refine ⟨{ after with holds := entered.holds }, ?_, ?_⟩
  · refine operation_of_homed ?_ told.homed
    rw [get_bind, show entered.host? id = some record from counting.host]
    dsimp only
    rw [if_pos counting.alive, bind_of_ok held,
      bind_of_ok (show track record.state .any { entered with holds } = .ok () begun from rfl), if_pos counting.mounted,
      bind_of_ok draws]
    exact emits
  · have kept : Redraws id record begun { after with holds := entered.holds } :=
      { told with homed := told.homed.of_same rfl rfl rfl }
    refine kept.since rfl rfl rfl rfl size fun effect => ?_
    exact (Graph.isDisposed_track _ _ _).trans (World.isDisposed_entered world _ effect)

/-- The effect that draws the counter is not running, so it runs. -/
theorem runEffect_eq (depth : Nat) (counting : Counting id renderer record count root world) :
    ∃ after, runEffect (runTo (depth + 3)) renderer world = .ok () after ∧ Redraws id record world after := by
  obtain ⟨effect, found, task⟩ := counting.task
  have lasting := counting.disposed_eq found
  have idle : world.graph.isRunning renderer = false := by
    rw [Graph.isRunning, ← Bool.not_eq_true, List.contains_iff_mem]
    exact counting.idle
  obtain ⟨after, rerenders, redraws⟩ := counting.rerender_eq depth ⟨effect, found, lasting, idle⟩
  refine ⟨{ after with graph := after.graph.pop }, ?_, redraws.leave after.holds⟩
  have runs : discard (performTask (runTo (depth + 2)) (.render id)) (world.entered (some renderer)) =
      .ok () after := by
    have performs : performTask (runTo (depth + 2)) (.render id) (world.entered (some renderer)) = .ok .null after :=
      bind_of_ok rerenders
    rw [discard_apply, performs]
  have body : runBody (runTo (depth + 3)) renderer effect world =
      ending (discard (performTask (runTo (depth + 2)) effect.task))
        (fun last => { last with graph := last.graph.pop }.collect) (world.entered (some renderer)) := rfl
  have kept := redraws.leave after.holds
  rw [runEffect_apply _ found, lasting, idle, if_neg Bool.false_ne_true, if_neg Bool.false_ne_true, body, task]
  unfold ending
  rw [runs]
  exact congrArg (EStateM.Result.ok ()) kept.homed.collect_eq

/-- The effect that draws the counter comes first among those that a write concerns, and the others belong to the
content. -/
theorem concerned_eq (counting : Counting id renderer record count root world) :
    ∃ rest, world.graph.concerned record.state countKey = renderer :: rest ∧
      ∀ other ∈ rest, other < world.graph.effects.size ∧ other ∈ record.bindings.effects := by
  obtain ⟨moves, path⟩ := counting.reachable
  have agrees := path.recorded.agrees
  have sorted := world.graph.pairwise_concerned record.state countKey
  have listed : ∀ other ∈ world.graph.concerned record.state countKey, other < world.graph.effects.size ∧
      (other = renderer ∨ other ∈ record.bindings.effects) := fun other member =>
    have known := known_of_mem_concerned path member
    ⟨known, counting.others other known (agrees.isDisposed_of_concerned member)⟩
  have drawn : renderer ∈ world.graph.concerned record.state countKey := by
    obtain ⟨effect, found, depends⟩ := counting.depends
    have lasting := counting.disposed_eq found
    exact (Graph.mem_concerned _ _ _ _).mpr (Or.inr ((agrees.mem_dependencies found _).mpr (depends lasting)))
  cases all : world.graph.concerned record.state countKey with
  | nil =>
      rw [all] at drawn
      cases drawn
  | cons first rest =>
      rw [all] at drawn sorted listed
      obtain ⟨least, -⟩ := List.pairwise_cons.mp sorted
      have same : first = renderer := by
        rcases List.mem_cons.mp drawn with same | later
        · exact same.symm
        · rcases (listed first List.mem_cons_self).2 with same | bound
          · exact same
          · exact absurd (least renderer later) (Nat.lt_asymm (counting.younger first bound))
      subst same
      refine ⟨rest, rfl, fun other member => ?_⟩
      obtain ⟨known, kind⟩ := listed other (List.mem_cons_of_mem _ member)
      exact ⟨known, kind.resolve_left (Nat.ne_of_gt (least other member))⟩

end Counting

/-- The counter was set to a number, and was drawn once for it. Older nodes hear what they heard. -/
structure Recounts (id : HostId) (renderer : EffectId) (record : Host) (next : Int) (before after : World) : Prop where
  counting : ∃ newer, Counting id renderer newer next before.forest.size after ∧ newer.renders = record.renders + 1 ∧
    newer.state = record.state ∧ newer.container = record.container
  handlers : ∀ node < before.forest.size, after.forest.handlersAt node = before.forest.handlersAt node
  parents : ∀ node parent, node < before.forest.size → after.forest.parent? node = some parent →
    before.forest.parent? node = some parent

namespace Counting

variable {id : HostId} {renderer : EffectId} {record : Host} {count : Int} {root : NodeId}

/-- A number that is written is shown by one render. -/
theorem writeValue_eq (depth : Nat) (counting : Counting id renderer record count root world) (next : Int) :
    ∃ after, writeValue (runTo (depth + 3)) record.state countKey (.integer next) world = .ok () after ∧
      Recounts id renderer record next world after := by
  let written := world.modifyStore record.state fun store =>
    { store with values := Dictionary.putSorted store.values countKey (.integer next) }
  let notified := written.notifying record.state countKey
  have stored : written.store? record.state = some (storeOf next) := by
    have changed := World.store?_modifyStore world record.state record.state fun store =>
      { store with values := Dictionary.putSorted store.values countKey (.integer next) }
    rw [if_pos rfl, counting.store] at changed
    exact changed
  obtain ⟨notices, holds, same⟩ : ∃ notices holds, notified = { written with notices, holds } := by
    show ∃ notices holds, written.notifying record.state countKey = _
    unfold World.notifying
    dsimp only
    split <;> exact ⟨_, _, rfl⟩
  have homed : written.Homed := counting.homed.modifyStore record.state fun _ => rfl
  have ready : Counting id renderer record next root { written with notices, holds } :=
    { counting with homed := homed.of_same rfl rfl rfl, store := stored }
  obtain ⟨drawn, runs, redraws⟩ := ready.runEffect_eq depth
  obtain ⟨rest, concerned, others⟩ := counting.concerned_eq
  have letting : ({ drawn with holds := drawn.holds.erase (.effect renderer) } : World).Homed :=
    redraws.homed.of_same rfl rfl rfl
  obtain ⟨left, passes⟩ := runInTurn_of_disposed (runTo (depth + 3)) redraws.homed rest
    (drawn.holds.erase (.effect renderer)) fun other member =>
      (redraws.disposed other (others other member).1).mpr (Or.inr (others other member).2)
  let after := { drawn with holds := world.holds }
  have final : after.Homed := redraws.homed.of_same rfl rfl rfl
  have turns : runInTurn (runTo (depth + 3)) (renderer :: rest) notified = .ok () { drawn with holds := left } := by
    have lets : letGo renderer drawn = .ok () { drawn with holds := drawn.holds.erase (.effect renderer) } :=
      congrArg (EStateM.Result.ok ()) letting.collect_eq
    unfold runInTurn
    rw [same, bind_of_ok runs, bind_of_ok lets]
    exact passes
  have writes : writeValue (runTo (depth + 3)) record.state countKey (.integer next) world = .ok () after := by
    have triggers : trigger (runTo (depth + 3)) record.state countKey written = .ok () after := by
      rw [trigger_apply, show written.graph.concerned record.state countKey = renderer :: rest from concerned]
      unfold ending
      rw [turns]
      exact congrArg (EStateM.Result.ok ()) final.collect_eq
    unfold writeValue
    rw [if_neg (by decide)]
    exact triggers
  refine ⟨after, writes, ?_⟩
  have keeps := Runner.keeps_runTo World.Later.refl (fun depth _ => lawful_lasting depth) (depth + 3)
  have later : world.Later after := (Lasting.writeValue keeps _ _ _ world).calm writes
  have redrawn : Redraws id record { written with notices, holds } after :=
    { redraws with homed := final }
  obtain ⟨bindings, story, driven⟩ := counting.redrawn redrawn later rfl rfl rfl stored
  exact
    { counting := ⟨_, ⟨driven, counting.mounted, redraws.stands⟩, rfl, rfl, rfl⟩
      handlers := redraws.handlers
      parents := redraws.parents }

end Counting

end Demo

end LiveMarkup
