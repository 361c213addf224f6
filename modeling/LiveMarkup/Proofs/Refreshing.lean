import LiveMarkup.Proofs.Gentle
import LiveMarkup.Proofs.Readers
import LiveMarkup.Proofs.Sites

/-
This file says what happens when the effect of a site runs: the site shows what its store says, and
the effect depends on all names that were read.
-/

namespace LiveMarkup

open Live

namespace Site

/-- This function evaluates the source of a site. -/
def look (run : Runner) (site : Site) (state : TargetId) : Live String :=
  match site.form with
  | .interpolation source => interpolate run state source
  | .content _ _ source => evaluateText run state source

theorem look_eq (run : Runner) {site : Site} {state : TargetId} {store : Store} {world : World}
    (found : world.store? state = some store) (free : site.isCallFree = true) :
    ∃ after, site.look run state world = .ok (site.seen store).2 after ∧
      world.Reads state (site.seen store).1 after := by
  obtain ⟨node, parent, form⟩ := site
  cases form with
  | interpolation source => exact interpolate_eq run found free
  | content tag attributes source => exact evaluateText_eq run found free

theorem performTask_eq (run : Runner) (site : Site) (state : TargetId) :
    performTask run (site.task state) =
      (do whileAlive state (do showAt site.node (← site.look run state)); pure .null) := by
  obtain ⟨node, parent, form⟩ := site
  cases form <;> rfl

end Site

/-- An input shows a new value only if it shows another one. -/
def Forest.refreshValue (forest : Forest Handler) (node : NodeId) (text : String) : Forest Handler :=
  if forest.value node ≠ text then forest.setValue node text else forest

namespace World

/-- Nodes are shown on behalf of an effect, and nothing else is done. -/
def ShownBy (effect : Option EffectId) (before after : World) : Prop :=
  ∃ newer, after.deeds = newer ++ before.deeds ∧
    ∀ deed ∈ newer, ∃ holders, deed = .shown effect holders

/-- Something is shown: nodes change as is said, and the graph does not. -/
structure Presents (state : TargetId) (change : Forest Handler → Forest Handler)
    (before after : World) : Prop where
  gentle : before.Gentle state after
  forest : after.forest = change before.forest
  graph : after.graph = before.graph
  deeds : before.ShownBy before.graph.active? after
  undisturbed : before.Undisturbed after

/-- The effect of a binding ran. It depends on the names that it read, and it changed nodes as is said.
All states are what they were, no effect is new, and no other effect subscribed. Where all that lives is
kept, nothing ended. -/
structure Refreshed (state : TargetId) (id : EffectId) (names : List String)
    (change : Forest Handler → Forest Handler) (before after : World) : Prop where
  gentle : before.Gentle state after
  forest : after.forest = change before.forest
  depends : after.isAlive state = true → ∀ name ∈ names, after.Depends id ⟨state, .named name⟩
  deeds : before.ShownBy (some id) after
  effects : after.graph.effects.size = before.graph.effects.size
  others : ∀ other, other ≠ id → Graph.GainsNothing other before.graph after.graph
  undisturbed : before.Settled → before.Undisturbed after

theorem size_entered (world : World) (frame : Option EffectId) :
    (world.entered frame).graph.effects.size = world.graph.effects.size := by
  cases frame <;> simp [entered, Graph.moved, Graph.push, Graph.countRun, Graph.modifyEffect]

theorem size_reading (world : World) (state : TargetId) (names : List String) :
    (world.reading state names).graph.effects.size = world.graph.effects.size := by
  unfold reading
  dsimp only
  induction names generalizing world with
  | nil => rfl
  | cons name rest inductionHypothesis =>
      rw [List.foldl_cons]
      exact (inductionHypothesis { world with graph := world.graph.track ⟨state, .named name⟩ }).trans
        (Graph.size_track _ _)

theorem gentle_hold (state : TargetId) (held : Hold) (world : World) :
    ∃ after, hold held world = .ok () after ∧ world.Gentle state after ∧ held ∈ after.holds ∧
      after.forest = world.forest ∧ after.graph = world.graph ∧ after.targets = world.targets ∧
      after.deeds = world.deeds := by
  by_cases known : world.holds.contains held = true
  · refine ⟨world, ?_, .refl state world, List.contains_iff_mem.mp known, rfl, rfl, rfl, rfl⟩
    show EStateM.Result.ok () (if world.holds.contains held then world else _) = _
    rw [if_pos known]
  · refine ⟨{ world with holds := held :: world.holds }, ?_, ?_, List.mem_cons_self, rfl, rfl, rfl, rfl⟩
    · show EStateM.Result.ok () (if world.holds.contains held then world else _) = _
      rw [if_neg known]
    · exact .of_objects (later_holds world _) (fun _ before => List.mem_cons_of_mem _ before) rfl rfl
        ⟨[], rfl, fun _ impossible => by cases impossible⟩ (.of_same rfl) rfl

theorem undisturbed_hold (held : Hold) {before after : World} (holds : hold held before = .ok () after) :
    before.Undisturbed after := by
  have same : (if before.holds.contains held then before
      else { before with holds := held :: before.holds }) = after := by
    injection holds
  rw [← same]
  split
  · exact .refl before
  · exact .of_same rfl rfl rfl rfl

/-- Reads disturb nothing. -/
theorem Undisturbed.reads {state : TargetId} {names : List String} {before after : World}
    (reads : before.Reads state names after) : before.Undisturbed after := by
  obtain ⟨parses, notices, rfl⟩ := reads
  have tracks : ∀ graph : Graph Task,
      graph.Quiet (names.foldl (fun graph name => graph.track ⟨state, .named name⟩) graph) := fun graph =>
    List.foldlRecOn names _ (.refl graph) fun after early name _ =>
      early.trans (Graph.Quiet.track after ⟨state, .named name⟩).1
  exact .of_graph (tracks before.graph) rfl rfl rfl

theorem Gentle.depends {state : TargetId} {before after : World} (gentle : before.Gentle state after)
    {id : EffectId} {name : String} (depends : before.Depends id ⟨state, .named name⟩)
    (alive : after.isAlive state = true) : after.Depends id ⟨state, .named name⟩ :=
  gentle.later.depends_of_shows gentle.deeds alive depends

/-- A new text is shown, and recorded as a deed. -/
theorem showAt_eq (state : TargetId) (node : NodeId) (text : String) (world : World) :
    ∃ after, showAt node text world = .ok () after ∧
      world.Presents state (·.setTextContent node text) after := by
  refine ⟨_, rfl, ?_, rfl, rfl, ⟨[.shown world.graph.active? (world.forest.holders node)], rfl,
    fun deed member => ⟨_, List.mem_singleton.mp member⟩⟩, .of_same rfl rfl rfl rfl⟩
  have attested : world.Gentle state
      (world.attest (.shown world.graph.active? (world.forest.holders node))) := .attest world _ rfl
  exact attested.trans (.forest _ (Forest.size_setTextContent world.forest node text))

/-- A new value is no deed, because it is no part of the markup. -/
theorem refreshValue_eq (state : TargetId) (node : NodeId) (text : String) (world : World) :
    ∃ after, (do if (← get).forest.value node ≠ text then modifyForest (·.setValue node text) : Live Unit)
        world = .ok () after ∧ world.Presents state (·.refreshValue node text) after := by
  have silent : ∃ newer, world.deeds = newer ++ world.deeds ∧
      ∀ deed ∈ newer, ∃ holders, deed = .shown world.graph.active? holders :=
    ⟨[], rfl, fun _ impossible => by cases impossible⟩
  unfold Forest.refreshValue
  by_cases other : world.forest.value node ≠ text
  · refine ⟨{ world with forest := world.forest.setValue node text }, ?_, ?_, (if_pos other).symm, rfl,
      silent, .of_same rfl rfl rfl rfl⟩
    · rw [get_bind, if_pos other]
      rfl
    · exact .forest world (Nat.le_of_eq (Forest.size_setValue world.forest node text).symm)
  · refine ⟨world, ?_, .refl state world, (if_neg other).symm, rfl, silent,
      .refl world⟩
    rw [get_bind, if_neg other]
    rfl

/-- A binding looks at its state and shows what it saw, while its frame is the innermost one. -/
theorem refreshed_whileAlive {state : TargetId} {store : Store} {id : EffectId} {look : Live String}
    {names : List String} {text : String} (present : String → Live Unit)
    (change : Forest Handler → Forest Handler)
    (looks : ∀ world : World, world.store? state = some store →
      ∃ after, look world = .ok text after ∧ world.Reads state names after)
    (presents : ∀ world, ∃ after, present text world = .ok () after ∧ world.Presents state change after)
    {world : World} (found : world.store? state = some store) (alive : store.alive = true)
    (reachable : world.Reachable) (active : world.graph.active? = some id) {task : Task}
    (has : world.HasTask id task) :
    ∃ after, whileAlive state (do present (← look)) world = .ok () after ∧
      world.Refreshed state id names change after := by
  have lives : world.isAlive state = true := by
    unfold isAlive
    rw [found]
    exact alive
  obtain ⟨held, holds, gentleHold, -, heldForest, heldGraph, heldTargets, heldDeeds⟩ :=
    gentle_hold state (.state state) world
  have still : held.store? state = some store := by
    unfold store? at found ⊢
    rwa [heldTargets]
  obtain ⟨read, looked, reads⟩ := looks held still
  obtain ⟨shown, shows, presented⟩ := presents read
  have gentleShow := presented.gentle
  have readForest : read.forest = held.forest := by
    obtain ⟨parses, notices, same⟩ := reads
    rw [same]
    rfl
  have operated : whileAlive state (do present (← look)) world =
      .ok () { shown with holds := world.holds }.collect := by
    unfold whileAlive
    rw [get_bind, if_pos lives]
    have inner : (do hold (.state state); present (← look) : Live Unit) world = .ok () shown :=
      (bind_of_ok holds).trans ((bind_of_ok looked).trans shows)
    unfold operation ending
    rw [inner]
  have toShown := (gentleHold.trans (.reads reads)).trans gentleShow
  have sweeps := sweeps_collect { shown with holds := world.holds }
  refine ⟨_, operated, toShown.close, ?_, ?_, ?_, ?_, ?_, ?_⟩
  · rw [sweeps.forest, presented.forest, readForest, heldForest]
  · intro lasting name member
    have heldReachable := gentleHold.later.reachable reachable
    have heldActive : held.graph.active? = some id := by rw [heldGraph]; exact active
    have depends : read.Depends id ⟨state, .named name⟩ := by
      obtain ⟨parses, notices, same⟩ := reads
      rw [same]
      exact depends_reading _ heldReachable heldActive (gentleHold.later.hasTask has) member
    have later : read.Later { shown with holds := world.holds }.collect :=
      (gentleShow.later.trans (later_holds shown world.holds)).trans (later_collect _)
    apply later.depends_of_shows _ lasting depends
    rw [sweeps.deeds]
    exact gentleShow.deeds
  · obtain ⟨newer, since, told⟩ := presented.deeds
    have readDeeds : read.deeds = world.deeds := by
      obtain ⟨parses, notices, same⟩ := reads
      rw [same]
      exact heldDeeds
    have readActive : read.graph.active? = some id := by
      have reading : held.Gentle state read := .reads reads
      have stack := reading.later.stack
      unfold Graph.active? at active ⊢
      rw [stack, heldGraph]
      exact active
    refine ⟨newer, ?_, ?_⟩
    · rw [sweeps.deeds, ← readDeeds]
      exact since
    · rw [← readActive]
      exact told
  · obtain ⟨parses, notices, same⟩ := reads
    rw [sweeps.effects]
    show shown.graph.effects.size = _
    rw [presented.graph, same, ← heldGraph]
    exact size_reading held state names
  · intro other different
    obtain ⟨parses, notices, same⟩ := reads
    have heldActive : held.graph.active? ≠ some other := by
      rw [heldGraph, active]
      exact fun equal => different (Option.some.inj equal).symm
    have reading := Gentle.gainsNothing_reading heldActive state names
    have whole : Graph.GainsNothing other world.graph shown.graph := by
      rw [presented.graph, same, ← heldGraph]
      exact reading
    exact whole.trans (gainsNothing_collect other { shown with holds := world.holds })
  · intro settled
    have whole := ((undisturbed_hold _ holds).trans (.reads reads)).trans presented.undisturbed
    rw [collect_eq_self ((whole.settled settled).holds world.holds)]
    exact whole.trans (.of_same rfl rfl rfl rfl)

/-- The effect of a binding runs in a frame of its own. -/
theorem refreshed_inFrame (depth : Nat) {state : TargetId} {id : EffectId} {effect : Effect Task}
    {names : List String} {change : Forest Handler → Forest Handler} {world : World}
    (known : world.graph.effect? id = some effect) (lasting : effect.disposed = false)
    (idle : world.graph.isRunning id = false) (reachable : world.Reachable)
    (performs : (world.entered (some id)).Reachable →
      (world.entered (some id)).HasTask id effect.task →
      ∃ ran, performTask (runTo depth) effect.task (world.entered (some id)) = .ok .null ran ∧
        (world.entered (some id)).Refreshed state id names change ran) :
    ∃ after, runEffect (runTo (depth + 1)) id world = .ok () after ∧
      world.Refreshed state id names change after := by
  have allowed : world.graph.Allows (.entered (some id)) := ⟨effect, known, lasting, idle⟩
  obtain ⟨moves, path⟩ := reachable
  have has : (world.entered (some id)).HasTask id effect.task :=
    HasTask.entered allowed ⟨effect, known, rfl⟩
  obtain ⟨ran, runs, refreshed⟩ := performs ⟨_, path.step (.entered (some id)) allowed⟩ has
  have body : (do modifyGraph (·.countRun id); discard (runTo (depth + 1) (.task effect.task)) : Live Unit)
      { world with graph := world.graph.push (some id) } = .ok () ran := by
    show discard (performTask (runTo depth) effect.task) (world.entered (some id)) = _
    rw [discard_apply, runs]
  have sweeps := sweeps_collect { ran with graph := ran.graph.pop }
  refine ⟨{ ran with graph := ran.graph.pop }.collect, ?_, refreshed.gentle.leave allowed, ?_, ?_, ?_,
    ?_, ?_, ?_⟩
  · rw [runEffect_apply _ known, lasting, idle]
    show ending _ (fun after => { after with graph := after.graph.pop }.collect)
      { world with graph := world.graph.push (some id) } = _
    unfold ending
    rw [body]
  · rw [sweeps.forest]
    exact refreshed.forest
  · intro lives name member
    have before := refreshed.depends (sweeps.states state lives) name member
    have popped : ({ ran with graph := ran.graph.pop } : World).Depends id ⟨state, .named name⟩ := before
    apply (later_collect _).depends_of_shows _ lives popped
    exact ⟨[], sweeps.deeds, fun _ impossible => by cases impossible⟩
  · obtain ⟨newer, since, told⟩ := refreshed.deeds
    exact ⟨newer, sweeps.deeds.trans since, told⟩
  · rw [sweeps.effects]
    exact refreshed.effects.trans (size_entered world (some id))
  · intro other different
    have entered : Graph.GainsNothing other world.graph (world.entered (some id)).graph := by
      apply Graph.GainsNothing.of_dependencies
      have same := Graph.effect?_countRun (world.graph.push (some id)) id other
      rw [if_neg (Ne.symm different)] at same
      exact congrArg (Option.map Effect.dependencies) same
    exact (entered.trans (refreshed.others other different)).trans
      (gainsNothing_collect other { ran with graph := ran.graph.pop })
  · intro settled
    obtain ⟨same, undisturbed⟩ := Undisturbed.leave settled
      (refreshed.undisturbed (settled.entered (some id)))
    rw [same]
    exact undisturbed

variable (depth : Nat) {state : TargetId} {store : Store} {id : EffectId} {effect : Effect Task}
  {world : World}

/-- The effect of a site shows there what its store says. -/
theorem refreshed_runEffect {site : Site} (known : world.graph.effect? id = some effect)
    (task : effect.task = site.task state) (lasting : effect.disposed = false)
    (idle : world.graph.isRunning id = false) (found : world.store? state = some store)
    (alive : store.alive = true) (free : site.isCallFree = true) (reachable : world.Reachable) :
    ∃ after, runEffect (runTo (depth + 1)) id world = .ok () after ∧
      world.Refreshed state id (site.seen store).1
        (·.setTextContent site.node (site.seen store).2) after := by
  apply refreshed_inFrame depth known lasting idle reachable
  intro inside has
  have stored : (world.entered (some id)).store? state = some store := found
  obtain ⟨ran, runs, refreshed⟩ := refreshed_whileAlive (showAt site.node)
    (·.setTextContent site.node (site.seen store).2)
    (fun _ still => site.look_eq (runTo depth) still free) (showAt_eq state site.node _) stored alive
    inside rfl has
  refine ⟨ran, ?_, refreshed⟩
  rw [task, Site.performTask_eq]
  exact bind_of_ok runs

/-- The effect of an input gives it the value that its store says. -/
theorem refreshed_valueBinding {node : NodeId} {source : String}
    (known : world.graph.effect? id = some effect) (task : effect.task = .valueBinding state node source)
    (lasting : effect.disposed = false) (idle : world.graph.isRunning id = false)
    (found : world.store? state = some store) (alive : store.alive = true)
    (free : Expr.isCallFreeSource source = true) (reachable : world.Reachable) :
    ∃ after, runEffect (runTo (depth + 1)) id world = .ok () after ∧
      world.Refreshed state id (store.evaluateText source).1
        (·.refreshValue node (store.evaluateText source).2) after := by
  apply refreshed_inFrame depth known lasting idle reachable
  intro inside has
  have stored : (world.entered (some id)).store? state = some store := found
  obtain ⟨ran, runs, refreshed⟩ := refreshed_whileAlive
    (fun text => do if (← get).forest.value node ≠ text then modifyForest (·.setValue node text))
    (·.refreshValue node (store.evaluateText source).2)
    (fun _ still => evaluateText_eq (runTo depth) still free) (refreshValue_eq state node _) stored alive
    inside rfl has
  refine ⟨ran, ?_, refreshed⟩
  rw [task]
  exact bind_of_ok runs

end World

end LiveMarkup
