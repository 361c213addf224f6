import LiveMarkup.Proofs.Secluded
import LiveMarkup.Proofs.Unfailing

/-
This file shows that all code of a world keeps the sites of a display up to date, as long as the
display is left to itself.
-/

namespace LiveMarkup

/-- Calm code keeps up to date what was up to date. -/
def Conduct.displaying (display : Display) : Conduct where
  calm before after := before.Later after ∧ (display.Untouched after → display.Stands before →
    display.Stands after ∧
      ∀ site, display.HasSite site → display.Fresh before site → display.Fresh after site)
  broken := World.Later
  refl world := ⟨.refl world, fun _ stands => ⟨stands, fun _ _ fresh => fresh⟩⟩
  trans := by
    rintro first second third ⟨early, before⟩ ⟨late, after⟩
    refine ⟨early.trans late, fun untouched stands => ?_⟩
    have between : display.Untouched second :=
      untouched.earlier late (stands.deeds.trans early.deeds) (Display.store_later early stands.store)
    obtain ⟨standing, fresh⟩ := before between stands
    obtain ⟨still, fresher⟩ := after untouched standing
    exact ⟨still, fun site member old => fresher site member (fresh site member old)⟩
  carry early late := early.1.trans late
  settle early late := early.trans late.1

namespace World

/-- Two worlds are alike for displays if they differ in names, hosts and records only. -/
structure Alike (before after : World) : Prop where
  graph : after.graph = before.graph
  targets : after.targets = before.targets
  forest : after.forest = before.forest
  deeds : after.deeds = before.deeds

namespace Alike

variable {display : Display} {before after : World}

theorem store? (alike : before.Alike after) (id : TargetId) : after.store? id = before.store? id := by
  unfold World.store?
  rw [alike.targets]

theorem untouched (alike : before.Alike after) (untouched : display.Untouched after) :
    display.Untouched before where
  deeds := alike.deeds ▸ untouched.deeds
  alive := by
    have alive := untouched.alive
    unfold isAlive at alive ⊢
    rwa [alike.store?] at alive
  methods store name found := untouched.methods store name ((alike.store? _).trans found)
  lasting id owned := alike.graph ▸ untouched.lasting id owned

theorem stands (alike : before.Alike after) (stands : display.Stands before) :
    display.Stands after where
  reachable := by
    obtain ⟨moves, path⟩ := stands.reachable
    exact ⟨moves, alike.graph ▸ path⟩
  deeds := alike.deeds ▸ stands.deeds
  store := (alike.store? _).symm ▸ stands.store
  methods store name found := stands.methods store name ((alike.store? _).symm.trans found)
  tasks site member := by
    unfold HasTask
    rw [alike.graph]
    exact stands.tasks site member
  inputs id member := by
    unfold HasInput HasTask
    rw [alike.graph]
    exact stands.inputs id member
  idle id owned := alike.graph ▸ stands.idle id owned
  size := alike.forest ▸ stands.size
  children := alike.forest ▸ stands.children
  shows := alike.forest ▸ stands.shows

theorem fresh (alike : before.Alike after) {site : Site} (fresh : display.Fresh before site) :
    display.Fresh after site := by
  obtain ⟨store, found, shows, depends⟩ := fresh.seen
  refine ⟨store, (alike.store? _).trans found, alike.forest ▸ shows, fun name member => ?_⟩
  unfold Depends
  rw [alike.graph]
  exact depends name member

end Alike

end World

namespace Displaying

open Live

variable {display : Display} {depth : Nat} {world before after origin : World} {A : Type}

/-- What hangs below the root is kept, and so are the values of the state. -/
theorem calm_of_keeps (formed : display.Formed) (later : before.Later after)
    (keeps : display.Untouched after → display.Stands before →
      Forest.Keeps display.root before.forest after.forest)
    (values : display.Untouched after → display.Stands before → ∀ older newer,
      before.store? display.state = some older → after.store? display.state = some newer →
        newer.values = older.values) :
    (Conduct.displaying display).calm before after :=
  ⟨later, fun untouched stands =>
    stands.kept formed later untouched (keeps untouched stands) (values untouched stands)⟩

/-- Nodes may change that show nothing below the root. -/
theorem calm_of_forest (formed : display.Formed) (later : before.Later after)
    (targets : after.targets = before.targets)
    (keeps : display.Untouched after → display.Stands before →
      Forest.Keeps display.root before.forest after.forest) :
    (Conduct.displaying display).calm before after := by
  apply calm_of_keeps formed later keeps
  intro _ _ older newer known found
  unfold World.store? at known found
  rw [targets, known] at found
  cases found
  rfl

theorem calm_of_same (formed : display.Formed) (later : before.Later after)
    (targets : after.targets = before.targets) (forest : after.forest = before.forest) :
    (Conduct.displaying display).calm before after :=
  calm_of_forest formed later targets fun _ _ => forest ▸ .refl _ _

/-- Other objects may end. -/
theorem calm_of_sweeps (formed : display.Formed) (later : before.Later after)
    (sweeps : before.Sweeps after) : (Conduct.displaying display).calm before after := by
  apply calm_of_keeps formed later
  · exact fun _ _ => sweeps.forest ▸ .refl _ _
  · intro untouched _ older newer known found
    rw [sweeps.stores display.state untouched.alive, known] at found
    cases found
    rfl

theorem calm_collect (formed : display.Formed) (world : World) :
    (Conduct.displaying display).calm world world.collect :=
  calm_of_sweeps formed (World.later_collect world) (World.sweeps_collect world)

/-- Names and hosts may come to refer to new effects. -/
theorem calm_of_alike (calm : (Conduct.displaying display).calm origin before)
    (later : origin.Later after) (alike : before.Alike after) :
    (Conduct.displaying display).calm origin after := by
  refine ⟨later, fun untouched stands => ?_⟩
  obtain ⟨standing, fresh⟩ := calm.2 (alike.untouched untouched) stands
  exact ⟨alike.stands standing, fun site member old => alike.fresh (fresh site member old)⟩

theorem note (formed : display.Formed) (notice : Notice) (world : World) :
    (Conduct.displaying display).calm world (world.note notice) :=
  calm_of_same formed (World.later_note world notice) rfl rfl

/-! Frames. -/

theorem fresh_entered {frame : Option EffectId} (allowed : world.graph.Allows (.entered frame))
    {site : Site} (fresh : display.Fresh world site) :
    display.Fresh (world.entered frame) site := by
  obtain ⟨store, found, shows, depends⟩ := fresh.seen
  refine ⟨store, found, shows, fun name member => ?_⟩
  obtain ⟨effect, known, listed⟩ := depends name member
  obtain ⟨newer, reached, continues⟩ := Graph.effect?_moved _ allowed known
  refine ⟨newer, reached, fun lasting => continues.dependencies lasting _ (listed ?_) ?_⟩
  · cases gone : effect.disposed with
    | false => rfl
    | true =>
        rw [continues.disposed gone] at lasting
        cases lasting
  · intro impossible
    cases impossible

/-- What runs in the frame of another effect keeps the display, and so does the end of the frame. -/
theorem calm_leave {frame : Option EffectId} (allowed : world.graph.Allows (.entered frame))
    (foreign : ∀ id, frame = some id → ¬ display.Owns id)
    (calm : (Conduct.displaying display).calm (world.entered frame) after) :
    (Conduct.displaying display).calm world { after with graph := after.graph.pop } := by
  have later := calm.1.leave allowed
  refine ⟨later, fun untouched stands => ?_⟩
  have inside : display.Untouched after :=
    ⟨untouched.deeds, untouched.alive, untouched.methods, untouched.lasting⟩
  obtain ⟨standing, fresh⟩ := calm.2 inside (stands.entered allowed foreign)
  constructor
  · refine stands.later later ?_ standing.shows
    exact standing.children.trans stands.children.symm
  · intro site member old
    exact ⟨(fresh site member (fresh_entered allowed old)).seen⟩

theorem inFrame (formed : display.Formed) {frame : Option EffectId} {action : Live A}
    (allowed : world.graph.Allows (.entered frame))
    (foreign : ∀ id, frame = some id → ¬ display.Owns id)
    (ends : (Conduct.displaying display).Ends (world.entered frame)
      (action { world with graph := world.graph.push frame })) :
    Follows (Conduct.displaying display) (Live.inFrame frame action) world := by
  have left : ∀ after, (Conduct.displaying display).calm (world.entered frame) after →
      (Conduct.displaying display).calm world { after with graph := after.graph.pop }.collect :=
    fun after calm => (Conduct.displaying display).trans (calm_leave allowed foreign calm)
      (calm_collect formed _)
  exact Follows.inFrame ends left fun _ later => (later.leave allowed).trans (World.later_collect _)

theorem calm_closes (formed : display.Formed) (holds : List Hold) (world : World) :
    (Conduct.displaying display).calm world { world with holds }.collect :=
  (Conduct.displaying display).trans (calm_of_same formed (World.later_holds world holds) rfl rfl)
    (calm_collect formed _)

theorem track (formed : display.Formed) (target : TargetId) (key : Key) (world : World) :
    Follows (Conduct.displaying display) (Live.track target key) world :=
  Follows.modifies (calm_of_same formed (show world.Later _ from Lasting.track target key) rfl rfl)

theorem plain (formed : display.Formed) : Plain (Conduct.displaying display) where
  finishes _ _ _ := calm_of_same formed
    (.of_same rfl rfl rfl rfl (Nat.le_refl _) (List.suffix_refl _)) rfl rfl
  notes := note formed
  meets _ _ := calm_of_same formed
    (.of_same rfl rfl rfl rfl (Nat.le_refl _) (List.suffix_refl _)) rfl rfl
  parses _ _ := calm_of_same formed
    (.of_same rfl rfl rfl rfl (Nat.le_refl _) (List.suffix_refl _)) rfl rfl
  holds held world := by
    apply Follows.modifies
    split
    · exact (Conduct.displaying display).refl world
    · exact calm_of_same formed (World.later_holds world _) rfl rfl
  operates _ world follows := follows.ending fun after => calm_closes formed world.holds after
  letsGo _ world := Follows.modifies (calm_closes formed _ world)
  untracks _ _ follows := inFrame formed trivial (fun _ impossible => by cases impossible) follows
  tracks target key world _ := track formed target key world
  tracksByHand target key := .trackByHand (fun world => Follows.modifies
    (calm_of_same formed (.attest world _) rfl rfl)) (track formed target key)
  nodes nodes world := calm_of_same formed (Lasting.plain.nodes nodes world) rfl rfl

/-! Effects. -/

/-- An effect of the display is ready to run. -/
theorem ready (untouched : display.Untouched world) (stands : display.Stands world) {id : EffectId}
    (owned : display.Owns id) {task : Task} (has : world.HasTask id task) :
    ∃ effect store, world.graph.effect? id = some effect ∧ effect.task = task ∧
      effect.disposed = false ∧ world.graph.isRunning id = false ∧
      world.store? display.state = some store ∧ store.alive = true := by
  obtain ⟨effect, found, same⟩ := has
  obtain ⟨store, known⟩ := Option.isSome_iff_exists.mp stands.store
  refine ⟨effect, store, found, same, ?_, ?_, known, ?_⟩
  · have lasts := untouched.lasting id owned
    unfold Graph.isDisposed at lasts
    rwa [found] at lasts
  · have free := stands.idle id owned
    simpa [Graph.isRunning] using free
  · have alive := untouched.alive
    unfold World.isAlive at alive
    rwa [known] at alive

/-- The effect of a site runs to its end. -/
theorem ranSite (formed : display.Formed) {site : Site} (member : display.HasSite site)
    (returned : Live.runEffect (runTo depth) (display.effectAt site.node) world = .ok () after)
    (untouched : display.Untouched world) (stands : display.Stands world) :
    ∃ store, world.store? display.state = some store ∧
      world.Refreshed display.state (display.effectAt site.node) (site.seen store).1
        (·.setTextContent site.node (site.seen store).2) after := by
  obtain ⟨effect, store, found, task, lasting, idle, known, alive⟩ :=
    ready untouched stands (Or.inl ⟨site, member, rfl⟩) (stands.tasks site member)
  cases depth with
  | zero =>
      rw [runEffect_apply _ found, lasting, idle] at returned
      cases returned
  | succ depth =>
      obtain ⟨ran, runs, refreshed⟩ := World.refreshed_runEffect depth found task lasting idle known
        alive (formed.free site member) stands.reachable
      cases runs.symm.trans returned
      exact ⟨store, known, refreshed⟩

/-- The effect of an input runs to its end. -/
theorem ranInput {id : EffectId} (member : id ∈ display.inputs)
    (returned : Live.runEffect (runTo depth) id world = .ok () after)
    (untouched : display.Untouched world) (stands : display.Stands world) :
    ∃ node names text, world.Refreshed display.state id names (·.refreshValue node text) after := by
  obtain ⟨node, source, has, free⟩ := stands.inputs id member
  obtain ⟨effect, store, found, task, lasting, idle, known, alive⟩ :=
    ready untouched stands (Or.inr member) has
  cases depth with
  | zero =>
      rw [runEffect_apply _ found, lasting, idle] at returned
      cases returned
  | succ depth =>
      obtain ⟨ran, runs, refreshed⟩ := World.refreshed_valueBinding depth found task lasting idle known
        alive free stands.reachable
      cases runs.symm.trans returned
      exact ⟨node, _, _, refreshed⟩

/-- The effects of a display disturb nothing. -/
theorem gentle_runEffect (formed : display.Formed) {id : EffectId} (owned : display.Owns id)
    (returned : Live.runEffect (runTo depth) id world = .ok () after)
    (untouched : display.Untouched world) (stands : display.Stands world) :
    world.Gentle display.state after := by
  rcases owned with ⟨site, member, rfl⟩ | member
  · obtain ⟨store, -, refreshed⟩ := ranSite formed member returned untouched stands
    exact refreshed.gentle
  · obtain ⟨node, names, text, refreshed⟩ := ranInput member returned untouched stands
    exact refreshed.gentle

/-- The effect of a site brings the site up to date. -/
theorem refreshed (formed : display.Formed) {site : Site} (member : display.HasSite site)
    (returned : Live.runEffect (runTo depth) (display.effectAt site.node) world = .ok () after)
    (untouched : display.Untouched after) (stands : display.Stands world) :
    display.Stands after ∧ display.Fresh after site ∧
      ∀ other, display.HasSite other → display.Fresh world other → display.Fresh after other := by
  have keeps := Runner.keeps_runTo World.Later.refl (fun depth _ => lawful_lasting depth) depth
  have later := (Lasting.runEffect keeps _ world).calm returned
  have before := untouched.earlier later stands.deeds stands.store
  obtain ⟨store, known, refreshed⟩ := ranSite formed member returned before stands
  exact stands.refreshed formed member known untouched refreshed

/-- The effect of an input changes nothing that is shown. -/
theorem inputKept (formed : display.Formed) {id : EffectId} (member : id ∈ display.inputs)
    (returned : Live.runEffect (runTo depth) id world = .ok () after)
    (untouched : display.Untouched after) (stands : display.Stands world) :
    display.Stands after ∧
      ∀ site, display.HasSite site → display.Fresh world site → display.Fresh after site := by
  have keeps := Runner.keeps_runTo World.Later.refl (fun depth _ => lawful_lasting depth) depth
  have later := (Lasting.runEffect keeps _ world).calm returned
  have before := untouched.earlier later stands.deeds stands.store
  obtain ⟨node, names, text, refreshed⟩ := ranInput member returned before stands
  apply stands.kept formed later untouched
  · rw [refreshed.forest]
    unfold Forest.refreshValue
    split
    · exact .setValue node _
    · exact .refl _ _
  · intro older newer looked reached
    rw [refreshed.gentle.store untouched.alive, looked] at reached
    cases reached
    rfl

/-- A run of an effect of the display never fails, so only its calm end matters. -/
theorem ownedRuns {id : EffectId}
    (kept : ∀ after, Live.runEffect (runTo depth) id world = .ok () after →
      display.Untouched after → display.Stands world → display.Stands after ∧
        ∀ site, display.HasSite site → display.Fresh world site → display.Fresh after site) :
    Follows (Conduct.displaying display) (Live.runEffect (runTo depth) id) world := by
  have lasts := Runner.keeps_runTo World.Later.refl (fun depth _ => lawful_lasting depth) depth
  have later := Lasting.runEffect lasts id world
  unfold Follows at later ⊢
  cases outcome : Live.runEffect (runTo depth) id world with
  | ok value after =>
      rw [outcome] at later
      exact ⟨later, kept after outcome⟩
  | error stop after =>
      rw [outcome] at later
      cases stop with
      | failed error => exact absurd outcome (unfailing_runEffect depth _ world error after)
      | panicked payload => exact later
      | exhausted => exact later

theorem runEffect (formed : display.Formed)
    (keeps : (runTo depth).Keeps (Conduct.displaying display)) (id : EffectId) (world : World) :
    Follows (Conduct.displaying display) (Live.runEffect (runTo depth) id) world := by
  by_cases owned : display.Owns id
  · apply ownedRuns
    intro after returned untouched stands
    rcases owned with ⟨site, member, rfl⟩ | member
    · obtain ⟨standing, -, fresh⟩ := refreshed formed member returned untouched stands
      exact ⟨standing, fresh⟩
    · exact inputKept formed member returned untouched stands
  · exact Follows.runEffect keeps (fun notice => note formed notice world)
      fun allowed _ ends => inFrame formed allowed
        (fun _ same owns => owned (Option.some.inj same ▸ owns)) ends

/-- Sites that are up to date stay so, and a site whose turn is still to come is so afterwards. -/
theorem fresh_runInTurn (formed : display.Formed)
    (keeps : (runTo depth).Keeps (Conduct.displaying display)) {ids : List EffectId}
    {world after : World} (returned : Live.runInTurn (runTo depth) ids world = .ok () after)
    (untouched : display.Untouched after) (stands : display.Stands world) {site : Site}
    (member : display.HasSite site)
    (awaits : display.Fresh world site ∨ display.effectAt site.node ∈ ids) :
    display.Fresh after site := by
  induction ids generalizing world with
  | nil =>
      cases returned
      exact awaits.resolve_right List.not_mem_nil
  | cons id rest inductionHypothesis =>
      have turns := (plain formed).runInTurn (runEffect formed keeps) rest
      obtain ⟨_, ran, runs, continued⟩ := bind_eq_ok.mp returned
      obtain ⟨_, released, lets, others⟩ := bind_eq_ok.mp continued
      have first := (runEffect formed keeps id world).calm runs
      have second := ((plain formed).letsGo id _).calm lets
      have third := (turns released).calm others
      have step := (Conduct.displaying display).trans second third
      have early : display.Untouched ran := untouched.earlier step.1
        (stands.deeds.trans first.1.deeds) (Display.store_later first.1 stands.store)
      obtain ⟨standing, kept⟩ := first.2 early stands
      have between : display.Untouched released := untouched.earlier third.1
        (standing.deeds.trans second.1.deeds) (Display.store_later second.1 standing.store)
      obtain ⟨still, keptOn⟩ := second.2 between standing
      apply inductionHypothesis others still
      by_cases here : display.effectAt site.node = id
      · subst here
        obtain ⟨-, fresh, -⟩ := refreshed formed member runs early stands
        exact Or.inl (keptOn site member fresh)
      · refine awaits.imp (fun fresh => keptOn site member (kept site member fresh)) fun listed => ?_
        exact (List.mem_cons.mp listed).resolve_left here

/-- The effects that a notification concerns are held until it is over. -/
theorem calm_notifying (formed : display.Formed) (target : TargetId) (name : String)
    (world : World) :
    (Conduct.displaying display).calm world (world.notifying target name) := by
  unfold World.notifying
  dsimp only
  split
  · exact calm_of_same formed (World.later_holds world _) rfl rfl
  · exact (Conduct.displaying display).trans (note formed _ world)
      (calm_of_same formed (World.later_holds _ _) rfl rfl)

theorem trigger (formed : display.Formed)
    (keeps : (runTo depth).Keeps (Conduct.displaying display)) (target : TargetId) (name : String)
    (world : World) :
    Follows (Conduct.displaying display) (Live.trigger (runTo depth) target name) world :=
  (plain formed).trigger (fun _ after => calm_of_same formed (World.later_holds after _) rfl rfl)
    (runEffect formed keeps) target name world

/-- All sites that a notification concerns are up to date when it is over. -/
theorem fresh_trigger (formed : display.Formed)
    (keeps : (runTo depth).Keeps (Conduct.displaying display)) {target : TargetId} {name : String}
    {world final : World} (returned : Live.trigger (runTo depth) target name world = .ok () final)
    (untouched : display.Untouched final) (stands : display.Stands world) {site : Site}
    (member : display.HasSite site)
    (awaits : display.Fresh world site ∨
      display.effectAt site.node ∈ world.graph.concerned target name) :
    display.Fresh final site := by
  rw [trigger_apply] at returned
  unfold Live.ending at returned
  have starts := calm_notifying formed target name world
  have turns := (plain formed).runInTurn (runEffect formed keeps) (world.graph.concerned target name)
    (world.notifying target name)
  cases outcome : Live.runInTurn (runTo depth) (world.graph.concerned target name)
      (world.notifying target name) with
  | error stop ended =>
      rw [outcome] at returned
      cases returned
  | ok value ended =>
      rw [outcome] at returned
      cases returned
      have middle := turns.calm outcome
      have ending := calm_closes formed world.holds ended
      have rest := (Conduct.displaying display).trans middle ending
      have early : display.Untouched (world.notifying target name) :=
        untouched.earlier rest.1 (stands.deeds.trans starts.1.deeds)
          (Display.store_later starts.1 stands.store)
      obtain ⟨standing, kept⟩ := starts.2 early stands
      have late : display.Untouched ended :=
        untouched.earlier ending.1 (standing.deeds.trans middle.1.deeds)
          (Display.store_later middle.1 standing.store)
      have fresh := fresh_runInTurn formed keeps outcome late standing member
        (awaits.imp_left (kept site member))
      obtain ⟨still, -⟩ := middle.2 late standing
      exact (ending.2 untouched still).2 site member fresh

/-! Writes. -/

/-- A state that lost no value keeps the display. -/
theorem calm_modifyStore (formed : display.Formed) (state : TargetId) (change : Store → Store)
    (later : world.Later (world.modifyStore state change))
    (values : display.Untouched (world.modifyStore state change) → display.Stands world →
      state = display.state → ∀ store, (change store).values = store.values) :
    (Conduct.displaying display).calm world (world.modifyStore state change) := by
  apply calm_of_keeps formed later
  · exact fun _ _ => .refl _ _
  · intro untouched stands older newer known found
    rw [World.store?_modifyStore] at found
    split at found
    · rename_i same
      rw [known] at found
      cases found
      exact values untouched stands same older
    · rw [known] at found
      cases found
      rfl

/-- A site that does not await the notification of a key did not read it. -/
theorem fresh_putValue (formed : display.Formed) {key : String} {value : Value}
    (later : world.Later (world.modifyStore display.state fun store =>
      { store with values := Dictionary.putSorted store.values key value }))
    (untouched : display.Untouched (world.modifyStore display.state fun store =>
      { store with values := Dictionary.putSorted store.values key value }))
    (stands : display.Stands world) {site : Site} (member : display.HasSite site)
    (fresh : display.Fresh world site) :
    display.Fresh (world.modifyStore display.state fun store =>
        { store with values := Dictionary.putSorted store.values key value }) site ∨
      display.effectAt site.node ∈ world.graph.concerned display.state key := by
  obtain ⟨store, known, shows, depends⟩ := fresh.seen
  by_cases reads : key ∈ (site.seen store).1
  · obtain ⟨effect, found, listed⟩ := depends key reads
    have lasting : effect.disposed = false := by
      have lasts := untouched.lasting _ (Or.inl ⟨site, member, rfl⟩)
      unfold Graph.isDisposed at lasts
      have found' : (world.modifyStore display.state fun store => { store with
          values := Dictionary.putSorted store.values key value }).graph.effect?
            (display.effectAt site.node) = some effect := found
      rwa [found'] at lasts
    obtain ⟨moves, path⟩ := stands.reachable
    refine Or.inr ((Graph.mem_concerned _ _ _ _).mpr (Or.inl ?_))
    exact (path.recorded.agrees.listed _ _).mpr ⟨effect, found, listed lasting⟩
  · refine Or.inl (fresh.later formed member stands later untouched (fun _ shown => shown) ?_)
    intro older newer looked reached name mentioned
    rw [World.store?_modifyStore, if_pos rfl, looked] at reached
    cases reached
    cases looked.symm.trans known
    have other : name ≠ key := fun same => reads (same ▸ mentioned)
    exact (Dictionary.get?_putSorted_of_ne store.values value other).symm

/-- All sites that a write concerns have their turn before the write is over. -/
theorem writeValue (formed : display.Formed)
    (keeps : (runTo depth).Keeps (Conduct.displaying display)) (state : TargetId) (key : String)
    (value : Value) (world : World) :
    Follows (Conduct.displaying display) (Live.writeValue (runTo depth) state key value) world := by
  unfold Live.writeValue
  split
  · exact Follows.modifies (note formed _ world)
  · have put : world.Later (world.modifyStore state fun store =>
        { store with values := Dictionary.putSorted store.values key value }) :=
      Lasting.putValue state key value
    by_cases here : state = display.state
    · subst here
      have triggers := trigger formed keeps display.state key
        (world.modifyStore display.state fun store =>
          { store with values := Dictionary.putSorted store.values key value })
      show (Conduct.displaying display).Ends world (Live.trigger (runTo depth) display.state key
        (world.modifyStore display.state fun store =>
          { store with values := Dictionary.putSorted store.values key value }))
      unfold Follows at triggers
      cases outcome : Live.trigger (runTo depth) display.state key
          (world.modifyStore display.state fun store =>
            { store with values := Dictionary.putSorted store.values key value }) with
      | error stop after =>
          rw [outcome] at triggers
          cases stop with
          | failed error => exact absurd outcome (unfailing_trigger depth _ _ _ error after)
          | panicked payload => exact put.trans triggers
          | exhausted => exact put.trans triggers
      | ok result after =>
          rw [outcome] at triggers
          refine ⟨put.trans triggers.1, fun untouched stands => ?_⟩
          have standing := stands.later put rfl stands.shows
          obtain ⟨still, -⟩ := triggers.2 untouched standing
          have early := untouched.earlier triggers.1 standing.deeds standing.store
          refine ⟨still, fun site member fresh => ?_⟩
          have awaits := fresh_putValue formed put early stands member fresh
          exact fresh_trigger formed keeps outcome untouched standing member awaits
    · refine (Follows.modifies (calm_modifyStore formed state _ put
        fun _ _ same => absurd same here)).bind fun _ after _ => ?_
      exact trigger formed keeps state key after

/-- A preset of the state is not allowed, and other presets do not matter. -/
theorem presetValue (formed : display.Formed) (state : TargetId) (key : String) (value : Value)
    (world : World) :
    Follows (Conduct.displaying display) (Live.presetValue state key value) world := by
  unfold Live.presetValue
  split
  · exact Follows.modifies (note formed _ world)
  · have later : world.Later ((world.attest (.preset state)).modifyStore state fun store =>
        { store with values := Dictionary.putSorted store.values key value }) :=
      (World.Later.attest world _).trans (Lasting.putValue state key value)
    have calm : (Conduct.displaying display).calm world
        ((world.attest (.preset state)).modifyStore state fun store =>
          { store with values := Dictionary.putSorted store.values key value }) := by
      apply calm_of_keeps formed later
      · exact fun _ _ => .refl _ _
      · intro untouched stands older newer known found
        have allowed : state ≠ display.state :=
          untouched.allows (show _ = [.preset state] ++ _ from rfl) stands
            (List.mem_singleton_self _)
        rw [World.store?_modifyStore, if_neg allowed] at found
        cases known.symm.trans found
        rfl
    exact calm

theorem addMethod (formed : display.Formed) (state : TargetId) (name : String) (method : Method)
    (world : World) :
    Follows (Conduct.displaying display) (Live.addMethod state name method) world :=
  Follows.modifies (calm_modifyStore formed state _
    (World.later_modifyStore world state _ (fun _ lives => lives) fun store other known =>
      Lasting.contains_put store.methods name other method known) fun _ _ _ _ => rfl)

theorem addsTarget (formed : display.Formed) (store : Option Store) (world : World)
    (later : world.Later (world.addTarget store).2) :
    (Conduct.displaying display).calm world (world.addTarget store).2 := by
  apply calm_of_keeps formed later
  · exact fun _ _ => .refl _ _
  · intro _ _ older newer known found
    cases (World.store?_addTarget store known).symm.trans found
    rfl

/-! Nodes. -/

/-- An edit that is allowed shows nothing below the root. -/
theorem admits (formed : display.Formed) : display.Admits (Conduct.displaying display) where
  plain := plain formed
  formed := formed
  attested world deed forest grows keeps := by
    have later : world.Later { world.attest deed with forest } :=
      .of_same rfl rfl rfl rfl grows (List.suffix_cons _ _)
    apply calm_of_forest formed later rfl
    intro untouched stands
    have allowed : display.Allows deed :=
      untouched.allows (show _ = [deed] ++ _ from rfl) stands (List.mem_singleton_self deed)
    exact keeps stands allowed.staysOut

/-! Hosts. -/

theorem modifyHost (formed : display.Formed) {id : HostId} {change : Host → Host}
    (later : world.Later (world.modifyHost id change)) :
    (Conduct.displaying display).calm world (world.modifyHost id change) :=
  calm_of_same formed later rfl rfl

theorem dropBindings (formed : display.Formed) (id : HostId) (world : World) :
    Follows (Conduct.displaying display) (Live.dropBindings id) world := by
  refine Follows.asks ?_
  split
  · exact Follows.pure _
  · rename_i host _
    have emptied := World.later_modifyHost world id (fun host => { host with bindings := {} })
      (fun _ => rfl) (fun _ => rfl) (fun _ lives => lives) (fun _ => Or.inr rfl)
      (fun _ => Or.inl rfl)
    refine (Follows.modifies (modifyHost formed emptied)).bind fun _ after _ => Follows.modifies ?_
    exact (Conduct.displaying display).trans
      (calm_of_sweeps formed (World.later_disposeBindings after host.bindings)
        (World.sweeps_disposeBindings after host.bindings)) (calm_collect formed _)

theorem installContent (formed : display.Formed) (id : HostId) (host : Host) (bindings : Bindings)
    (fragment : NodeId) (origin world : World)
    (calm : (Conduct.displaying display).calm origin world)
    (begotten : ∀ effect ∈ bindings.effects,
      (Conduct.displaying display).Begets origin effect world) :
    (Conduct.displaying display).Ends origin
      (Live.installContent id host bindings fragment world) := by
  have later := Lasting.installContent id host bindings fragment origin world calm.1
    fun effect listed => (begotten effect listed).imp And.left
  have shown := (admits formed).replaced id bindings.effects host.container fragment world
  exact calm_of_alike ((Conduct.displaying display).trans calm shown) later ⟨rfl, rfl, rfl, rfl⟩

theorem removeContent (formed : display.Formed) (id : HostId) (host : Host) (world : World) :
    Follows (Conduct.displaying display) (Live.removeContent id host) world := by
  have cleared := (admits formed).cleared id host.container world
  exact (Conduct.displaying display).trans cleared (modifyHost formed (World.later_modifyHost _ id _
    (fun _ => rfl) (fun _ => rfl) (fun _ lives => lives) (fun _ => Or.inl rfl)
    (fun _ => Or.inl rfl)))

/-! All operations. -/

theorem basic (formed : display.Formed)
    (keeps : (runTo depth).Keeps (Conduct.displaying display)) :
    Basic (Conduct.displaying display) (runTo depth) where
  toPlain := plain formed
  keeps := keeps
  breaks calm := calm.1
  tracksHost _ host key world _ _ := track formed host.state key world
  records _ _ := calm_of_same formed
    (.of_same rfl rfl rfl rfl (Nat.le_refl _) (List.suffix_refl _)) rfl rfl
  names names world rearranged := calm_of_same formed
    ((lawful_lasting depth).names names world rearranged) rfl rfl
  recovers {before after} kind payload broken := by
    have later := (lawful_lasting depth).recovers kind payload broken
    refine ⟨later, fun untouched stands => ?_⟩
    obtain ⟨newer, since⟩ := broken.deeds
    have recovered : ((after.note (.hookPanicked kind payload)).attest
        (.recovered payload)).deeds = (.recovered payload :: newer) ++ before.deeds := by
      rw [List.cons_append, since]
      rfl
    exact (untouched.allows recovered stands List.mem_cons_self).elim
  emits id _ world _ := modifyHost formed (Lasting.later_tell id _ world)

theorem primitive (formed : display.Formed)
    (keeps : (runTo depth).Keeps (Conduct.displaying display)) :
    Primitive (Conduct.displaying display) (runTo depth) fun _ => False where
  toBasic := basic formed keeps
  collects := calm_collect formed
  addsTarget store world alive := addsTarget formed store world
    ((Lasting.primitive (lawful_lasting depth).keeps).addsTarget store world alive)
  presets := presetValue formed
  writes := writeValue formed keeps
  addsMethod := addMethod formed
  starts label task captures world _ :=
    calm_of_same formed (Lasting.later_withEffect label task captures world) rfl rfl
  runsEffect id world _ := runEffect formed keeps id world
  triggers := trigger formed keeps
  releases target world := by
    have released : (Conduct.displaying display).calm world
        { world.attest (.released target) with graph := world.graph.release target } :=
      calm_of_same formed (Lasting.releaseTarget target world) rfl rfl
    exact released
  disposes id origin world calm _ := (Conduct.displaying display).trans calm
    (calm_of_sweeps formed (World.later_disposeEffect world id) (World.sweeps_disposeEffect world id))
  namesEffect name id origin world calm begotten := calm_of_alike calm
    ((Lasting.primitive (lawful_lasting depth).keeps).namesEffect name id origin world calm.1
      (begotten.imp And.left)) ⟨rfl, rfl, rfl, rfl⟩
  namesBindings name bindings origin world calm begotten := calm_of_alike calm
    ((Lasting.primitive (lawful_lasting depth).keeps).namesBindings name bindings origin world
      calm.1 fun id listed => (begotten id listed).imp And.left) ⟨rfl, rfl, rfl, rfl⟩
  createsNode content world := calm_of_forest formed
    (.of_forest world _ (by rw [Forest.size_create]; exact Nat.le_succ _)) rfl
    fun _ stands => .create content (Display.root_lt_size formed stands)
  plants trees world := calm_of_forest formed
    (.of_forest world _ (Forest.size_plantFragment world.forest trees)) rfl
    fun _ stands => .plantFragment trees (Display.root_lt_size formed stands)
  setsValue node value world := calm_of_forest formed
    (.of_forest world _ (Nat.le_of_eq (Forest.size_setValue world.forest node value).symm)) rfl
    fun _ _ => .setValue node value
  listens node kind handler world := calm_of_forest formed
    (.of_forest world _ (Nat.le_of_eq (Forest.size_listen world.forest node kind handler).symm)) rfl
    fun _ _ => .listen node kind handler
  edits := (admits formed).edits
  shows := (admits formed).showAt
  tells id milestone world _ := modifyHost formed (Lasting.later_tell id milestone world)
  addsHost component state container _ world calm _ _ := (Conduct.displaying display).trans calm
    (calm_of_same formed (Lasting.later_withHost component state container world) rfl rfl)
  startsRenderer label id world :=
    calm_of_same formed (Lasting.later_withEffect label (.render id) [] world) rfl rfl
  runsRenderer := runEffect formed keeps
  rendersBy id effect origin world calm made := calm_of_alike calm
    ((Lasting.primitive (lawful_lasting depth).keeps).rendersBy id effect origin world calm.1
      (made.imp And.left)) ⟨rfl, rfl, rfl, rfl⟩
  namesHost name id world := calm_of_same formed
    ((Lasting.primitive (lawful_lasting depth).keeps).namesHost name id world) rfl rfl
  mounts id world foreign := modifyHost formed
    ((Lasting.primitive (lawful_lasting depth).keeps).mounts id world foreign)
  changesTemplate id template world := modifyHost formed
    ((lawful_lasting depth).changesTemplate id template world)
  hooks id kind body world := modifyHost formed ((lawful_lasting depth).hooks id kind body world)
  templates id template world _ := calm_of_same formed (.attest world _) rfl rfl
  dropsContent id world _ := dropBindings formed id world
  installs id host bindings fragment origin world _ :=
    installContent formed id host bindings fragment origin world
  removes id host world _ := removeContent formed id host world
  rendersOwn _ _ impossible := impossible.elim
  mountsOwn _ _ impossible := impossible.elim
  rerendersOwn _ _ impossible := impossible.elim
  destroysOwn _ _ impossible := impossible.elim

end Displaying

/-- Whatever code runs, it keeps a display up to date that is left to itself. -/
theorem lawful_displaying {display : Display} (formed : display.Formed) (depth : Nat) :
    Lawful (Conduct.displaying display) (Live.runTo depth) :=
  (Displaying.primitive formed (Runner.keeps_runTo World.Later.refl
    (fun _ keeps => (Displaying.primitive formed keeps).lawful) depth)).lawful

end LiveMarkup
