import LiveMarkup.Proofs.Moving
import LiveMarkup.Proofs.RoundTrip
import LiveMarkup.Proofs.Staging

/-
This file shows what a host does to its own content: a render sets up new content, which is up to date,
and a destruction leaves none.
-/

namespace LiveMarkup

open Live

namespace World

/-- The bindings of a host are forgotten and disposed. -/
def emptied (world : World) (id : HostId) (record : Host) : World :=
  ((world.modifyHost id fun host => { host with bindings := {} }).disposeBindings record.bindings).collect

/-- A template is planted for a host, and its old bindings go. -/
def prepared (world : World) (id : HostId) (record : Host) (trees : List Markup)
    (notices : List Notice) : World :=
  ({ world with forest := (world.forest.plantFragment trees).2, notices }.attest
    (.parsed id record.component.template)).emptied id record

/-- New content stands in the container. -/
def installed (world : World) (id : HostId) (record : Host) (bindings : Bindings)
    (fragment : NodeId) : World :=
  { world.attest (.rendered id bindings.effects (world.forest.holders record.container ++
      world.forest.appendHolders record.container fragment)) with
    forest := (world.forest.clear record.container).append record.container fragment }.modifyHost id
      fun host => { host with bindings, renders := host.renders + 1 }

/-- The container of a host is empty, and the host is not mounted. -/
def removed (world : World) (id : HostId) (record : Host) : World :=
  { world.attest (.destroyed id (world.forest.holders record.container)) with
    forest := world.forest.clear record.container }.modifyHost id
      fun host => { host with mounted := false, story := .destroyed host.renders :: host.story }

variable {world : World} {id : HostId} {record : Host} {state : TargetId} {trees : List Markup}
  {notices : List Notice}

theorem dropBindings_eq (found : world.host? id = some record) :
    dropBindings id world = .ok () (world.emptied id record) := by
  unfold dropBindings
  rw [get_bind, found]
  rfl

/-- Apart from the record of the host, only objects go that nothing holds. -/
theorem sweeps_emptied (world : World) (id : HostId) (record : Host) :
    (world.modifyHost id fun host => { host with bindings := {} }).Sweeps (world.emptied id record) := by
  have disposed := sweeps_disposeBindings (world.modifyHost id fun host => { host with bindings := {} })
    record.bindings
  exact disposed.trans (sweeps_collect _)

/-- Bindings that are forgotten and disposed do not come back. -/
theorem later_forgotten (world : World) (id : HostId) (bindings : Bindings) :
    world.Later ((world.modifyHost id fun host => { host with bindings := {} }).disposeBindings bindings) := by
  have forgotten := later_modifyHost world id (fun host => { host with bindings := {} }) (fun _ => rfl)
    (fun _ => rfl) (fun _ lives => lives) (fun _ => Or.inr rfl) (fun _ => Or.inl rfl)
  exact forgotten.trans (later_disposeBindings _ bindings)

theorem later_emptied (world : World) (id : HostId) (record : Host) :
    world.Later (world.emptied id record) :=
  (later_forgotten world id record.bindings).trans (later_collect _)

theorem houses_emptied (host : HostId) (world : World) (id : HostId) (record : Host) :
    world.Houses host (world.emptied id record) := by
  let forgotten := world.modifyHost id fun host => { host with bindings := {} }
  have disposed : world.Houses host (forgotten.disposeBindings record.bindings) :=
    .of_targets (objects_disposeBindings forgotten record.bindings).1
  exact disposed.trans (later_forgotten world id record.bindings) (houses_collect host _) (later_collect _)

/-- A host that is held keeps its state while its bindings go. -/
theorem guarded_emptied (found : world.host? id = some record) (lives : record.alive = true)
    (alive : world.isAlive record.state = true) (held : .host id ∈ world.holds) :
    (world.emptied id record).Guarded record.state (.host id) := by
  let forgotten := world.modifyHost id fun host => { host with bindings := {} }
  obtain ⟨targets, hosts⟩ := objects_disposeBindings forgotten record.bindings
  have sweeps := sweeps_disposeBindings forgotten record.bindings
  refine guarded_collect ⟨?_, ?_, Or.inr ⟨id, { record with bindings := {} }, rfl, ?_, lives, rfl⟩⟩
  · unfold isAlive store? at alive ⊢
    rwa [targets]
  · rw [sweeps.holds]
    exact held
  · unfold host?
    rw [hosts]
    have changed := host?_modifyHost world id id fun host => { host with bindings := {} }
    rw [if_pos rfl, found] at changed
    exact changed

theorem later_prepared (world : World) (id : HostId) (record : Host) (trees : List Markup)
    (notices : List Notice) : world.Later (world.prepared id record trees notices) := by
  have planted : world.Later
      { world with forest := (world.forest.plantFragment trees).2, notices } :=
    .of_same rfl rfl rfl rfl (Forest.size_plantFragment world.forest trees) (List.suffix_refl _)
  exact (planted.trans (.attest _ _)).trans (later_emptied _ id record)

end World

namespace Stage

variable {stage : Stage} {display : Display} {world : World} {record : Host} {trees : List Markup}
  {notices : List Notice}

/-- A binding is offered the state of the host. -/
theorem Presents.offers (presents : stage.Presents display world) (sound : world.Sound)
    (found : world.host? stage.host = some record) (held : .host stage.host ∈ world.holds)
    (peaceful : stage.Peaceful (world.prepared stage.host record trees notices)) :
    ∃ store, world.store? stage.state = some store ∧
      (world.prepared stage.host record trees notices).Offers stage.state store (.host stage.host) := by
  have later := World.later_prepared world stage.host record trees notices
  have before := presents.peaceful (.refl world) later peaceful
  obtain ⟨store, stored⟩ := Option.isSome_iff_exists.mp presents.stands.store
  obtain ⟨_, looked, state, -⟩ := presents.record
  obtain ⟨_, known, lives⟩ := before.living
  cases found.symm.trans looked
  cases found.symm.trans known
  have guarded : (world.prepared stage.host record trees notices).Guarded record.state
      (.host stage.host) := World.guarded_emptied found lives (state ▸ presents.alive) held
  have sweeps := World.sweeps_emptied
    ({ world with forest := (world.forest.plantFragment trees).2, notices }.attest
      (.parsed stage.host record.component.template)) stage.host record
  refine ⟨store, presents.state ▸ stored, later.reachable presents.stands.reachable,
    later.sound sound, ?_, state ▸ guarded⟩
  exact (sweeps.stores stage.state (state ▸ guarded.alive)).trans (presents.state ▸ stored)

/-- The methods of the state are those that the host began with. -/
theorem Presents.methods_eq (presents : stage.Presents display world) (peaceful : stage.Peaceful world)
    {store : Store} (stored : world.store? stage.state = some store) :
    store.methods.contains = stage.methods := by
  funext name
  rw [Bool.eq_iff_iff]
  constructor
  · exact peaceful.methods store name stored
  · intro listed
    exact presents.stands.methods store name (presents.state.symm ▸ stored) (presents.methods.symm ▸ listed)

/-- A display that has just been opened in the container is the content of the host. -/
theorem presents_of_opens {store : Store} {effects : List EffectId} {template : String}
    (opens : display.Opens stage.state stage.container trees store effects world)
    (content : Deed.content? stage.host world.deeds = some effects)
    (named : Deed.template? stage.host world.deeds = some template)
    (parsed : Markup.parse template = .ok trees) (free : Markup.EverywhereAll Markup.CallFree trees)
    (methods : store.methods.contains = stage.methods) (since : stage.deeds <:+ world.deeds)
    (record : ∃ record, world.host? stage.host = some record ∧ record.state = stage.state ∧
      record.container = stage.container)
    (alive : world.isAlive stage.state = true) (alone : ∀ id ∈ effects, ∀ place, world.RefersAt id place → place = .content stage.host)
    (lasting : ∀ id ∈ effects, world.graph.isDisposed id = false) : stage.Presents display world where
  formed := opens.formed
  state := opens.state
  root := opens.root
  methods := opens.methods.trans methods
  since := opens.deeds ▸ since
  owns id := by
    rw [opens.owns, opens.deeds, Stage.effects, content]
    rfl
  content _ _ := ⟨template, opens.deeds ▸ named, opens.trees ▸ parsed, opens.trees ▸ free, opens.kids⟩
  stands := opens.stands
  record := record
  alive := alive
  deeds := ⟨[], opens.deeds.symm, fun _ impossible => by cases impossible⟩
  alone id place owned := alone id ((opens.owns id).mp owned) place
  lasting id owned := lasting id ((opens.owns id).mp owned)

/-- The host that installs new effects is the only one that refers to them. -/
theorem refers_installed {bound : World} {id : EffectId} (endures : bound.Endures id) {host : HostId}
    {bindings : Bindings} {fragment : NodeId} (place : World.Place)
    (refers : (bound.installed host record bindings fragment).RefersAt id place) :
    place = .content host := by
  cases place with
  | names => exact absurd refers (endures.free .names)
  | bindings => exact absurd refers (endures.free .bindings)
  | content other =>
      obtain ⟨found, looked, listed⟩ := refers
      by_cases same : host = other
      · rw [same]
      · unfold World.installed at looked
        rw [World.host?_modifyHost, if_neg same] at looked
        exact absurd ⟨found, looked, listed⟩ (endures.free (.content other))
  | renderer other =>
      obtain ⟨found, looked, renders⟩ := refers
      unfold World.installed at looked
      rw [World.host?_modifyHost] at looked
      split at looked
      · obtain ⟨old, known, rfl⟩ := Option.map_eq_some_iff.mp looked
        exact absurd ⟨old, known, renders⟩ (endures.free (.renderer other))
      · exact absurd ⟨found, looked, renders⟩ (endures.free (.renderer other))

/-- A render sets up new content. -/
theorem Presents.renews (presents : stage.Presents display world) (sound : world.Sound)
    (found : world.host? stage.host = some record) (held : .host stage.host ∈ world.holds)
    (parsed : Markup.parse record.component.template = .ok trees) {depth : Nat} {bindings : Bindings}
    {bound : World} (binds : bind (runTo (depth + 1)) world.forest.size record.state
      (world.prepared stage.host record trees notices) = .ok bindings bound)
    (late : (world.prepared stage.host record trees notices).Later
      (bound.installed stage.host record bindings world.forest.size))
    (peaceful : stage.Peaceful (bound.installed stage.host record bindings world.forest.size)) :
    ∃ newer, stage.Renews newer world
      (bound.installed stage.host record bindings world.forest.size) := by
  let ready := world.prepared stage.host record trees notices
  let after := bound.installed stage.host record bindings world.forest.size
  have early : world.Later ready := World.later_prepared world stage.host record trees notices
  have between := presents.peaceful early late peaceful
  obtain ⟨_, looked, state, container⟩ := presents.record
  cases found.symm.trans looked
  rw [state] at binds
  obtain ⟨store, stored, offers⟩ := presents.offers sound found held between
  have sweeps := World.sweeps_emptied
    ({ world with forest := (world.forest.plantFragment trees).2, notices }.attest
      (.parsed stage.host record.component.template)) stage.host record
  have deeds : ready.deeds = .parsed stage.host record.component.template :: world.deeds := sweeps.deeds
  have forest : ready.forest = (world.forest.plantFragment trees).2 := sweeps.forest
  have free := peaceful.free _ trees (late.deeds.subset (deeds ▸ List.mem_cons_self)) parsed
  have planted : ready.forest.Planted world.forest.size trees :=
    forest ▸ Forest.planted_plantFragment world.forest trees
  obtain ⟨_, _, returns, gentle, ⟨opened, opens, start⟩, fresh, shapes, -⟩ :=
    Display.opens_bind depth (Markup.normal_parse parsed).legal free offers planted
  cases returns.symm.trans binds
  have known : stage.container < world.forest.size :=
    presents.root ▸ Display.root_lt_size presents.formed presents.stands
  have near : ∀ child ∈ bound.forest.children stage.container, child < world.forest.size := by
    obtain ⟨shape, shaped⟩ := Forest.exists_shape? known
    have kept : ready.forest.shape? stage.container = some shape := by
      rw [forest, Forest.shape?_plantFragment trees known, shaped]
    rw [Forest.children_of_shape? (shapes _ _ (Nat.le_of_lt known) kept),
      ← Forest.children_of_shape? shaped, ← presents.root, presents.stands.children]
    exact fun child member =>
      Nat.lt_of_lt_of_le (presents.formed.near child member) presents.stands.size
  obtain ⟨moved, opensMoved⟩ : ∃ moved : Display, moved.Opens stage.state stage.container trees _ _ after :=
    opens.moved start known (shapes _ _ (Nat.le_refl _) planted.fragment) near rfl rfl (container ▸ rfl)
  have others : ∃ newer, bound.deeds = newer ++ ready.deeds ∧
      ∀ deed ∈ newer, deed.concerns stage.host = false := (World.Steady.of_gentle gentle).deeds
  have named : Deed.template? stage.host after.deeds = some record.component.template := by
    obtain ⟨newer, since, foreign⟩ := others
    show Deed.template? stage.host bound.deeds = _
    rw [since, (Deed.content?_append_of_others foreign _).2, deeds]
    exact if_pos rfl
  have content : Deed.content? stage.host after.deeds = some bindings.effects := if_pos rfl
  have host : ∃ record, after.host? stage.host = some record ∧ record.state = stage.state ∧
      record.container = stage.container := by
    obtain ⟨newer, reached, containerSame, stateSame, -⟩ := (early.trans late).hosts _ record found
    exact ⟨newer, reached, stateSame.trans state, containerSame.trans container⟩
  have methods := presents.methods_eq (presents.peaceful (.refl world) (early.trans late) peaceful) stored
  exact ⟨moved, presents_of_opens opensMoved content named parsed free methods
      (presents.older.trans (early.trans late).deeds) host (gentle.guarded _ offers.guarded).alive
      (fun id member => refers_installed (fresh id member).1) (fun id member => (fresh id member).1.lasting),
    opensMoved.fresh,
    fun id owned => Nat.le_trans early.effects (fresh id ((opensMoved.owns id).mp owned)).2⟩

/-- Nothing is shown in the container, and no effects belong to the host. -/
def vacant (stage : Stage) (world : World) : Display :=
  { state := stage.state, root := stage.container, start := world.forest.size
    kids := world.forest.children stage.container, trees := [], effectAt := fun _ => 0, inputs := []
    deeds := world.deeds, methods := stage.methods }

theorem not_owns_vacant (id : EffectId) : ¬ (stage.vacant world).Owns id := by
  rintro (⟨site, member, -⟩ | member)
  · exact absurd member List.not_mem_nil
  · exact absurd member List.not_mem_nil

/-- A host without content is on its stage. -/
theorem presents_vacant (none : Deed.content? stage.host world.deeds = none)
    (reachable : world.Reachable) (since : stage.deeds <:+ world.deeds)
    (store : (world.store? stage.state).isSome = true)
    (methods : ∀ store name, world.store? stage.state = some store → stage.methods name = true →
      store.methods.contains name = true)
    (record : ∃ record, world.host? stage.host = some record ∧ record.state = stage.state ∧
      record.container = stage.container)
    (alive : world.isAlive stage.state = true) (known : stage.container < world.forest.size)
    (near : ∀ child ∈ world.forest.children stage.container, child < world.forest.size) :
    stage.Presents (stage.vacant world) world where
  formed := ⟨known, near, fun _ member => absurd member List.not_mem_nil⟩
  state := rfl
  root := rfl
  methods := rfl
  since := since
  owns id := by
    show _ ↔ id ∈ (Deed.content? stage.host world.deeds).getD []
    rw [none]
    exact ⟨fun owned => absurd owned (not_owns_vacant id), fun member => absurd member List.not_mem_nil⟩
  content _ found := absurd (none.symm.trans found) (by simp)
  stands :=
    { reachable, deeds := List.suffix_refl _, store, methods
      tasks := fun _ member => absurd member List.not_mem_nil
      inputs := fun _ member => absurd member List.not_mem_nil
      idle := fun id owned => absurd owned (not_owns_vacant id)
      size := Nat.le_refl _
      children := rfl
      shows := ⟨fun _ => "", fun _ member => absurd member List.not_mem_nil⟩ }
  record := record
  alive := alive
  deeds := ⟨[], rfl, fun _ impossible => by cases impossible⟩
  alone id _ owned := absurd owned (not_owns_vacant id)
  lasting id owned := absurd owned (not_owns_vacant id)

/-- A host that is destroyed has no content. -/
theorem Presents.vacates {removed : World} (presents : stage.Presents display world)
    (later : world.Later removed) (peaceful : stage.Peaceful removed)
    (houses : world.Houses stage.host removed) (none : Deed.content? stage.host removed.deeds = none)
    (children : removed.forest.children stage.container = []) :
    stage.Renews (stage.vacant removed) world removed where
  presents := by
    obtain ⟨record, found, state, container⟩ := presents.record
    obtain ⟨newer, reached, containerSame, stateSame, -⟩ := later.hosts _ record found
    have known := presents.root ▸ Display.root_lt_size presents.formed presents.stands
    obtain ⟨store, stored⟩ := Option.isSome_iff_exists.mp presents.stands.store
    obtain ⟨last, storedLast, -, kept⟩ := later.stores _ store stored
    obtain ⟨_, known', lives⟩ := peaceful.living
    cases known'.symm.trans reached
    have alive : removed.isAlive stage.state = true :=
      state ▸ houses record newer found reached lives (state.symm ▸ presents.alive)
    refine presents_vacant none (later.reachable presents.stands.reachable)
      (presents.older.trans later.deeds) ?_ ?_
      ⟨newer, reached, stateSame.trans state, containerSame.trans container⟩ alive
      (Nat.lt_of_lt_of_le known later.nodes) ?_
    · rw [← presents.state, storedLast]
      rfl
    · intro other name looked listed
      cases (presents.state ▸ looked).symm.trans storedLast
      exact kept name (presents.stands.methods store name stored (presents.methods.symm ▸ listed))
    · rw [children]
      exact fun _ impossible => by cases impossible
  fresh _ member := absurd member List.not_mem_nil
  recent id owned := absurd owned (not_owns_vacant id)

end Stage

namespace Staging

variable {stage : Stage} {depth : Nat} {world : World} {record : Host} {trees : List Markup}
  {notices : List Notice}

/-- The nodes of a template are planted away from the container. -/
theorem calm_planted (trees : List Markup) (notices : List Notice) (world : World) :
    (Conduct.staging stage).calm world
      { world with forest := (world.forest.plantFragment trees).2, notices } := by
  have later : world.Later { world with forest := (world.forest.plantFragment trees).2, notices } :=
    .of_same rfl rfl rfl rfl (Forest.size_plantFragment world.forest trees) (List.suffix_refl _)
  exact calm_of_steady (fun _ formed => Displaying.calm_of_forest formed later rfl
    fun _ stands => .plantFragment trees (Display.root_lt_size formed stands))
    (.of_same later rfl rfl rfl (.of_targets rfl))

/-- The code of a host runs after its new content has been installed. -/
theorem renderContent (keeps : (runTo depth).Keeps (Conduct.staging stage))
    (found : world.host? stage.host = some record) (held : .host stage.host ∈ world.holds)
    (parsed : Markup.parse record.component.template = .ok trees) :
    (Conduct.staging stage).Ends world
      (Live.renderContent (runTo depth) stage.host record world.forest.size
        { world with forest := (world.forest.plantFragment trees).2, notices }) := by
  have lasts := Runner.keeps_runTo World.Later.refl (fun depth _ => lawful_lasting depth) depth
  have early := World.later_prepared world stage.host record trees notices
  have drops : dropBindings stage.host
      ({ world with forest := (world.forest.plantFragment trees).2, notices }.attest
        (.parsed stage.host record.component.template)) =
        .ok () (world.prepared stage.host record trees notices) := World.dropBindings_eq found
  unfold Live.renderContent
  rw [bind_of_ok (show Live.attest _ _ = .ok () _ from rfl), bind_of_ok drops]
  have binding := (Lasting.primitive lasts).bind world.forest.size record.state
    (world.prepared stage.host record trees notices)
  cases outcome : Live.bind (runTo depth) world.forest.size record.state
      (world.prepared stage.host record trees notices) with
  | error stop ended =>
      rw [bind_of_error outcome]
      have ends := binding.1
      unfold Follows at ends
      rw [outcome] at ends
      cases stop with
      | failed error =>
          exact absurd outcome (Unfailing.bind_tree (unfailing_runTo depth).1 _ _ _ error ended)
      | panicked payload => exact early.trans ends
      | exhausted => exact early.trans ends
  | ok bindings bound =>
      have late : (world.prepared stage.host record trees notices).Later
          (bound.installed stage.host record bindings world.forest.size) :=
        Lasting.installContent stage.host record bindings world.forest.size _ bound
          (binding.1.calm outcome) (binding.2 bindings bound outcome)
      rw [bind_of_ok outcome, bind_of_ok (show Live.installContent _ _ _ _ _ = .ok ()
        (bound.installed stage.host record bindings world.forest.size) from rfl)]
      cases depth with
      | zero => exact (early.trans late).trans (World.later_note _ _)
      | succ depth =>
          have calm : (Conduct.staging stage).calm world
              (bound.installed stage.host record bindings world.forest.size) := by
            refine ⟨early.trans late, fun peaceful sound display presents => ⟨?_, Or.inr ?_⟩⟩
            · exact fun _ _ _ _ => Or.inr (congrArg Option.isSome (if_pos rfl))
            · exact presents.renews sound found held parsed outcome late peaceful
          exact Conduct.Ends.after calm (Follows.asks ((plain.note _).bind fun _ noted _ =>
            (keeps (.rendered stage.host) noted trivial).discard))

theorem renderHost (keeps : (runTo depth).Keeps (Conduct.staging stage))
    (held : .host stage.host ∈ world.holds) :
    Follows (Conduct.staging stage) (Live.renderHost (runTo depth) stage.host) world := by
  refine Follows.asks ?_
  split
  · exact Follows.pure _
  · rename_i record found
    obtain ⟨notices, made⟩ := parseTemplate_eq record.component.template world
    unfold Follows
    rw [bind_of_ok made]
    cases parsed : Markup.parse record.component.template with
    | error error => exact calm_planted _ notices world
    | ok trees =>
        rw [(Markup.parse_eq_ok.mp parsed).2]
        have content : (Conduct.staging stage).Ends world
            (Live.renderContent (runTo depth) stage.host record world.forest.size
              { world with forest := (world.forest.plantFragment trees).2, notices }) :=
          renderContent keeps found held parsed
        refine ends_bind content fun _ after outcome => ?_
        rw [outcome] at content
        exact content

/-- A render that returned left content behind, and what came after it is known. -/
theorem content_of_renderHost {id : HostId} {rendered : World}
    (returned : Live.renderHost (runTo depth) id world = .ok (.ok ()) rendered)
    (found : world.host? id = some record) :
    ∃ base, base <:+ rendered.deeds ∧ world.deeds <:+ base ∧ (Deed.content? id base).isSome = true := by
  have lasts := Runner.keeps_runTo World.Later.refl (fun depth _ => lawful_lasting depth) depth
  unfold Live.renderHost at returned
  rw [get_bind, found] at returned
  obtain ⟨parse, planted, parses, returned⟩ := bind_eq_ok.mp returned
  have first : world.Later planted := ((Lasting.primitive lasts).parseTemplate _ world).calm parses
  cases parse with
  | error error => cases returned
  | ok fragment =>
      obtain ⟨_, after, renders, ends⟩ := bind_eq_ok.mp returned
      cases ends
      obtain ⟨_, attested, attests, renders⟩ := bind_eq_ok.mp renders
      obtain ⟨_, dropped, drops, renders⟩ := bind_eq_ok.mp renders
      obtain ⟨bindings, bound, binds, renders⟩ := bind_eq_ok.mp renders
      obtain ⟨_, installed, installs, renders⟩ := bind_eq_ok.mp renders
      have second : planted.Later attested := (Lasting.attest _).calm attests
      have third : attested.Later dropped := (Lasting.dropBindings id attested).calm drops
      have fourth : dropped.Later bound := ((Lasting.primitive lasts).bind _ _ dropped).1.calm binds
      have last : installed.Later rendered := by
        obtain ⟨_, noted, notes, discards⟩ := bind_eq_ok.mp (get_bind _ _ ▸ renders)
        exact ((Lasting.note _).calm notes).trans ((lasts (.rendered id) noted trivial).discard.calm discards)
      cases installs
      refine ⟨_, last.deeds, ?_, congrArg Option.isSome (if_pos rfl)⟩
      exact (((first.trans second).trans third).trans fourth).deeds.trans (List.suffix_cons _ _)

/-- A host that gets mounted has content, unless it was destroyed meanwhile. -/
theorem mounts_mounted {drawn : World}
    (returned : Live.drawHost (runTo depth) stage.host world = .ok (.ok ()) drawn) :
    stage.Mounts world ((drawn.tell stage.host (.answered .mount)).modifyHost stage.host
      fun host => { host with mounted := true }) := by
  obtain ⟨rendered, renders, rfl⟩ := Basic.drawHost_eq_ok.mp returned
  intro newer since standing mounted
  cases found : world.host? stage.host with
  | none =>
      have absent : (world.tell stage.host .began).host? stage.host = none :=
        World.host?_modifyHost_of_none _ _ found
      unfold Live.renderHost at renders
      rw [get_bind, absent] at renders
      cases renders
      obtain ⟨record, reached, -⟩ := mounted
      have nowhere := World.host?_modifyHost_of_none stage.host (fun host => { host with mounted := true })
        (World.host?_modifyHost_of_none stage.host
          (fun host => { host with story := .answered .mount :: host.story })
          (World.host?_modifyHost_of_none stage.host
            (fun host => { host with story := .ended :: host.story }) absent))
      cases nowhere.symm.trans reached
  | some record =>
      have begun : (world.tell stage.host .began).host? stage.host =
          some { record with story := .began :: record.story } := by
        unfold World.tell
        rw [World.host?_modifyHost, if_pos rfl, found]
        rfl
      obtain ⟨base, ⟨late, last⟩, ⟨early, first⟩, content⟩ := content_of_renderHost renders begun
      have parts : newer = late ++ early := by
        refine (List.append_left_inj world.deeds).mp ?_
        rw [← since, List.append_assoc]
        exact (last.symm.trans (congrArg (late ++ ·) first.symm))
      subst parts
      refine Or.inr ?_
      show (Deed.content? stage.host rendered.deeds).isSome = true
      rw [← last, Deed.content?_append fun holders member =>
        standing holders (List.mem_append_left _ member)]
      cases Deed.content? stage.host late with
      | none => exact content
      | some effects => rfl

theorem drawHost (keeps : (runTo depth).Keeps (Conduct.staging stage))
    (held : .host stage.host ∈ world.holds) :
    Follows (Conduct.staging stage) (Live.drawHost (runTo depth) stage.host) world :=
  Basic.drawHost (calm_tell stage.host) (fun _ held => renderHost keeps (held trivial)) fun _ => held

theorem mountHost (basic : Basic (Conduct.staging stage) (runTo depth))
    (held : .host stage.host ∈ world.holds) :
    Follows (Conduct.staging stage) (Live.mountHost (runTo depth) stage.host) world := by
  refine (Follows.modifies (calm_tell stage.host (.asked .mount) world)).bind fun _ asked outcome => ?_
  cases outcome
  have draws : Follows (Conduct.staging stage) (Live.drawHost (runTo depth) stage.host)
      (world.tell stage.host (.asked .mount)) := drawHost basic.keeps held
  refine ends_bind draws fun outcome drawn returned => ?_
  have calm := draws.calm returned
  split
  · exact (Conduct.staging stage).trans calm (calm_tell stage.host .refused drawn)
  · let answered := drawn.tell stage.host (.answered .mount)
    let mounted := answered.modifyHost stage.host fun host => { host with mounted := true }
    have answering := (Conduct.staging stage).trans calm (calm_tell stage.host (.answered .mount) drawn)
    have later : answered.Later mounted := World.later_modifyHost answered stage.host _ (fun _ => rfl)
      (fun _ => rfl) (fun _ lives => lives) (fun _ => Or.inl rfl) (fun _ => Or.inl rfl)
    have mounting : (Conduct.staging stage).calm (world.tell stage.host (.asked .mount)) mounted := by
      refine ⟨answering.1.trans later, fun peaceful sound display presents =>
        ⟨mounts_mounted returned, ?_⟩⟩
      have goes : ∀ display, stage.Presents display answered → stage.Continues display answered mounted :=
        fun display standing => standing.continues peaceful (Displaying.modifyHost standing.formed later)
          ⟨[], rfl, fun _ impossible => by cases impossible⟩ standing.lasting (.of_targets rfl)
      rcases (answering.2 (presents.peaceful answering.1 later peaceful) sound display presents).2 with
        still | ⟨newer, renews⟩
      · exact Or.inl (still.trans (goes display still.presents))
      · exact Or.inr ⟨newer, renews.trans (goes newer renews.presents)⟩
    have announced : Follows (Conduct.staging stage) (do
        let selector := ((← get).host? stage.host).elim "" fun host => host.component.selector
        Live.note (.hostMounted selector)
        emitHost (runTo depth) stage.host .mount
        pure (Except.ok () : Except TemplateError Unit)) mounted :=
      Follows.asks ((plain.note _).bind fun _ noted _ =>
        (basic.emitHost stage.host .mount (calm_tell stage.host _ noted)).bind
          fun _ _ _ => Follows.pure _)
    exact Conduct.Ends.after mounting announced

/-- A host that is destroyed leaves no content and is not mounted. -/
theorem destroyHost (basic : Basic (Conduct.staging stage) (runTo depth)) (world : World) :
    Follows (Conduct.staging stage) (Live.destroyHost (runTo depth) stage.host) world := by
  refine (basic.emitHost stage.host .destroy (calm_tell stage.host _ world)).bind fun _ emitted _ => ?_
  cases found : emitted.host? stage.host with
  | none =>
      have drops : dropBindings stage.host emitted = .ok () emitted := by
        unfold dropBindings
        rw [get_bind, found]
        rfl
      unfold Follows
      rw [bind_of_ok drops, get_bind, found]
      exact Follows.pure _
  | some record =>
      have early := World.later_emptied emitted stage.host record
      obtain ⟨newer, reached, -⟩ := early.hosts _ record found
      let removed := (emitted.emptied stage.host record).removed stage.host newer
      have late : (emitted.emptied stage.host record).Later removed := by
        have cleared : (emitted.emptied stage.host record).Later
            { (emitted.emptied stage.host record).attest (.destroyed stage.host
                ((emitted.emptied stage.host record).forest.holders newer.container)) with
              forest := (emitted.emptied stage.host record).forest.clear newer.container } :=
          .of_same rfl rfl rfl rfl (Nat.le_of_eq (Forest.size_clear _ _).symm) (List.suffix_cons _ _)
        exact cleared.trans (World.later_modifyHost _ stage.host _ (fun _ => rfl)
          (fun _ => rfl) (fun _ lives => lives) (fun _ => Or.inl rfl) (fun _ => Or.inl rfl))
      unfold Follows
      rw [bind_of_ok (World.dropBindings_eq found), get_bind, reached]
      have calm : (Conduct.staging stage).calm emitted removed := by
        have houses : emitted.Houses stage.host removed :=
          (World.houses_emptied stage.host emitted stage.host record).trans early (.of_targets rfl) late
        refine ⟨early.trans late, fun peaceful _ display presents => ⟨?_, Or.inr ⟨_, presents.vacates
          (early.trans late) peaceful houses (if_pos rfl) ?_⟩⟩⟩
        · rintro _ _ _ ⟨last, looked, -, mounted⟩
          have changed := World.host?_modifyHost _ stage.host stage.host _ ▸ looked
          rw [if_pos rfl] at changed
          obtain ⟨old, -, rfl⟩ := Option.map_eq_some_iff.mp changed
          cases mounted
        · obtain ⟨old, looked, -, container⟩ := presents.record
          cases found.symm.trans looked
          obtain ⟨_, again, same, -⟩ := early.hosts _ record found
          cases reached.symm.trans again
          show ((emitted.emptied stage.host record).forest.clear newer.container).children stage.container = []
          rw [same, container]
          exact Forest.children_clear _ _
      exact Conduct.Ends.after calm (plain.note _)

/-! All operations. -/

theorem basic (keeps : (runTo depth).Keeps (Conduct.staging stage)) :
    Basic (Conduct.staging stage) (runTo depth) where
  toPlain := plain
  keeps := keeps
  breaks calm := calm.1
  tracksHost _ host key world _ _ := track host.state key world
  records _ _ := calm_of_same (.of_same rfl rfl rfl rfl (Nat.le_refl _) (List.suffix_refl _))
    rfl rfl rfl rfl rfl
  names names world rearranged := calm_of_same ((lawful_lasting depth).names names world rearranged)
    rfl rfl rfl rfl rfl
  recovers {before after} kind payload broken := by
    have later := (lawful_lasting depth).recovers kind payload broken
    refine ⟨later, fun peaceful _ display presents => ?_⟩
    obtain ⟨newer, since, quiet⟩ := peaceful.deeds
    obtain ⟨early, same⟩ := presents.older.trans broken.deeds
    have parts : newer = .recovered payload :: early := by
      refine (List.append_left_inj stage.deeds).mp ?_
      rw [← since, List.cons_append, same]
      rfl
    subst parts
    rcases quiet.1 with impossible | impossible
    · cases impossible
    · exact impossible.elim
  emits id _ world _ := calm_tell id _ world

/-- Another host installs content that it has made. -/
theorem installContent {id : HostId} {origin : World} (foreign : id ≠ stage.host) (host : Host)
    (bindings : Bindings) (fragment : NodeId) (calm : (Conduct.staging stage).calm origin world)
    (begotten : ∀ effect ∈ bindings.effects, (Conduct.staging stage).Begets origin effect world) :
    (Conduct.staging stage).Ends origin (Live.installContent id host bindings fragment world) := by
  let shown : World := { world.attest (.rendered id bindings.effects
      (world.forest.holders host.container ++ world.forest.appendHolders host.container fragment)) with
    forest := (world.forest.clear host.container).append host.container fragment }
  have grows : world.forest.size ≤ shown.forest.size :=
    Nat.le_of_eq (by rw [Forest.size_append, Forest.size_clear])
  have attested : world.Steady stage.host (world.attest (.rendered id bindings.effects
      (world.forest.holders host.container ++ world.forest.appendHolders host.container fragment))) :=
    .attest world (show (Deed.rendered id _ _).concerns stage.host = false from decide_eq_false foreign)
  have showing : (Conduct.staging stage).calm world shown := calm_of_steady
    (fun _ formed => (Displaying.admits formed).replaced id bindings.effects host.container fragment world)
    (attested.trans (.forest _ grows))
  have later := Lasting.installContent id host bindings fragment origin world calm.1
    fun effect listed => (begotten effect listed).imp And.left
  refine calm_of_references ((Conduct.staging stage).trans calm showing) later ⟨rfl, rfl, rfl, rfl⟩
    (.modifyHost shown id fun _ => ⟨rfl, rfl, rfl, rfl⟩) (World.refersAt_modifyHost ?_ ?_)
  · exact fun _ effect listed => Or.inr ((begotten effect listed).later showing).made
  · exact fun _ _ renders => Or.inl renders

theorem calm_withEffect (label : String) (task : Task) (captures : List TargetId) (world : World) :
    (Conduct.staging stage).calm world (world.withEffect label task captures) := by
  have steady : world.Steady stage.host (world.withEffect label task captures) :=
    .of_gentle (World.gentle_withEffect stage.state label task captures world)
  exact calm_of_steady (fun _ formed => Displaying.calm_of_same formed steady.later rfl rfl) steady

/-- A host that is new is not the one on the stage. -/
theorem calm_withHost (component : Component Script) (state : TargetId) (container : NodeId)
    (world : World) : (Conduct.staging stage).calm world (world.withHost component state container) := by
  have later := Lasting.later_withHost component state container world
  refine ⟨later, fun peaceful _ display presents => ⟨.of_mounted ?_, Or.inl (presents.continues peaceful
    (Displaying.calm_of_same presents.formed later rfl rfl)
    ⟨[], rfl, fun _ impossible => by cases impossible⟩ presents.lasting (.of_targets rfl))⟩⟩
  rintro ⟨record, reached, alive, mounted⟩
  obtain ⟨known, found, -⟩ := presents.record
  rcases World.host?_of_withHost reached with old | ⟨-, rfl⟩
  · exact ⟨record, old, alive, mounted⟩
  · cases mounted

theorem primitive (keeps : (runTo depth).Keeps (Conduct.staging stage)) :
    Primitive (Conduct.staging stage) (runTo depth) fun id => id = stage.host where
  toBasic := basic keeps
  collects := calm_collect
  addsTarget store world alive := by
    have later := (Lasting.primitive (lawful_lasting depth).keeps).addsTarget store world alive
    exact calm_of_steady (fun _ formed => Displaying.addsTarget formed store world later)
      (.of_same later rfl rfl rfl fun old _ _ _ _ lives => World.isAlive_addTarget store lives)
  presets state key value world := follows_of_steady
    (fun _ formed => Displaying.presetValue formed state key value world)
    (Steady.presetValue state key value world)
  writes := writeValue keeps
  addsMethod state name method world := follows_of_steady
    (fun _ formed => Displaying.addMethod formed state name method world)
    (Steady.addMethod state name method world)
  starts label task captures world _ := calm_withEffect label task captures world
  runsEffect id world _ := runEffect keeps id world
  triggers := trigger keeps
  releases target world := follows_of_steady
    (fun _ formed => (lawful_displaying formed depth).releases target world)
    (Steady.releaseTarget target world)
  disposes id origin world calm commands := calm_disposeEffect calm commands
  namesEffect name id origin world calm begotten := by
    refine calm_of_references calm ((Lasting.primitive (lawful_lasting depth).keeps).namesEffect name id
      origin world calm.1 (begotten.imp And.left)) ⟨rfl, rfl, rfl, rfl⟩ (.of_eq rfl)
      (World.refersAt_names (fun entry member => ?_) fun entry member _ listed =>
        Or.inl ⟨entry, member, listed⟩)
    rcases Assoc.mem_put member with new | old
    · exact Or.inr (new ▸ begotten.made)
    · exact Or.inl ⟨entry, old, rfl⟩
  namesBindings name bindings origin world calm begotten := by
    refine calm_of_references calm ((Lasting.primitive (lawful_lasting depth).keeps).namesBindings name
      bindings origin world calm.1 fun id listed => (begotten id listed).imp And.left)
      ⟨rfl, rfl, rfl, rfl⟩ (.of_eq rfl) (World.refersAt_names
        (fun entry member => Or.inl ⟨entry, member, rfl⟩) fun entry member id listed => ?_)
    rcases Assoc.mem_put member with new | old
    · subst new
      exact Or.inr (begotten id listed).made
    · exact Or.inl ⟨entry, old, listed⟩
  createsNode content world := by
    have grows : world.forest.size ≤ (world.forest.create content).2.size := by
      rw [Forest.size_create]
      exact Nat.le_succ _
    exact calm_of_forest grows fun _ formed stands =>
      .create content (Display.root_lt_size formed stands)
  plants trees world := calm_planted trees world.notices world
  setsValue node value world := calm_of_forest
    (Nat.le_of_eq (Forest.size_setValue world.forest node value).symm) fun _ _ _ => .setValue node value
  listens node kind handler world := calm_of_forest
    (Nat.le_of_eq (Forest.size_listen world.forest node kind handler).symm)
    fun _ _ _ => .listen node kind handler
  edits world holders forest grows keeps hears := calm_of_steady
    (fun _ formed => (Displaying.admits formed).edits world holders forest grows keeps hears)
    (Steady.edits world holders forest grows keeps hears)
  shows node text world := follows_of_steady (fun _ formed => (Displaying.admits formed).showAt node text world)
    (Steady.showAt node text world)
  tells id milestone world _ := calm_tell id milestone world
  addsHost component state container _ world calm _ _ :=
    (Conduct.staging stage).trans calm (calm_withHost component state container world)
  startsRenderer label id world := calm_withEffect label (.render id) [] world
  runsRenderer := runEffect keeps
  rendersBy id effect origin world calm made := calm_of_references calm
    ((Lasting.primitive (lawful_lasting depth).keeps).rendersBy id effect origin world calm.1
      (made.imp And.left)) ⟨rfl, rfl, rfl, rfl⟩
    (.modifyHost world id fun _ => ⟨rfl, rfl, rfl, rfl⟩)
    (World.refersAt_modifyHost (fun _ _ listed => Or.inl listed) fun _ other renders => by
      cases renders
      exact Or.inr ⟨_, made⟩)
  namesHost name id world := calm_of_same
    ((Lasting.primitive (lawful_lasting depth).keeps).namesHost name id world) rfl rfl rfl rfl rfl
  mounts id world foreign := calm_modifyHost
    ((Lasting.primitive (lawful_lasting depth).keeps).mounts id world fun impossible => impossible)
    (fun same => absurd same foreign) fun _ lives => lives
  changesTemplate id template world := calm_modifyHost
    ((lawful_lasting depth).changesTemplate id template world) (fun _ _ mounted => mounted)
    fun _ lives => lives
  hooks id kind body world := calm_modifyHost ((lawful_lasting depth).hooks id kind body world)
    (fun _ _ mounted => mounted) fun _ lives => lives
  templates id template world foreign := calm_of_steady
    (fun _ formed => Displaying.calm_of_same formed (.attest world _) rfl rfl)
    (.attest world (show (Deed.parsed id template).concerns stage.host = false from
      decide_eq_false foreign))
  dropsContent id world foreign := follows_of_steady
    (fun _ formed => Displaying.dropBindings formed id world) (Steady.dropBindings foreign world)
  installs id host bindings fragment origin world foreign calm begotten :=
    installContent foreign host bindings fragment calm begotten
  removes id host world foreign := follows_of_steady
    (fun _ formed => Displaying.removeContent formed id host world) (Steady.removeContent foreign host world)
  rendersOwn id world own finds := by
    subst own
    exact Basic.renderAsked (calm_tell _) (fun _ held => renderHost keeps (held trivial))
      fun _ => finds.held
  mountsOwn id world own finds := by
    subst own
    exact mountHost (basic keeps) finds.held
  rerendersOwn id world own _ := by
    subst own
    exact (basic keeps).rerender (calm_tell _) fun _ held => renderHost keeps (held trivial)
  destroysOwn id world own := by
    subst own
    exact destroyHost (basic keeps) world

end Staging

/-- Whatever code runs, it keeps the content of a host up to date that is left to itself. -/
theorem lawful_staging (stage : Stage) (depth : Nat) : Lawful (Conduct.staging stage) (Live.runTo depth) :=
  (Staging.primitive (Runner.keeps_runTo World.Later.refl
    (fun _ keeps => (Staging.primitive keeps).lawful) depth)).lawful

end LiveMarkup
