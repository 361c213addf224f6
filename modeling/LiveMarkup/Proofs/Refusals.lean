import LiveMarkup.Proofs.Fruitless
import LiveMarkup.Proofs.Lifetime
import LiveMarkup.Proofs.Nesting
import LiveMarkup.Proofs.Refreshing
import LiveMarkup.Proofs.Renders
import LiveMarkup.Proofs.Tenure

/-
This file shows that a render whose template does not parse changes nothing, and that the bindings which it
leaves in place still have their turns in the notification that caused it.
-/

namespace LiveMarkup

namespace World

/-- Hosts are furnished and have their states while they live, and their bindings look at their states. -/
structure Proper (world : World) : Prop where
  furnished : world.Furnished
  orderly : world.Orderly
  equipped : world.Equipped

/-- Living hosts keep their bindings until they are disposed, and a proper world stays proper. -/
structure Onward (before after : World) : Prop where
  tenure : before.Tenure after
  proper : before.Proper → after.Proper

theorem Onward.refl (world : World) : world.Onward world := ⟨.refl world, fun proper => proper⟩

theorem Onward.trans {first second third : World} (early : first.Onward second) (late : second.Onward third) :
    first.Onward third := ⟨early.tenure.trans late.tenure, fun proper => late.proper (early.proper proper)⟩

theorem onward_notifying (world : World) (state : TargetId) (key : String) :
    world.Onward (world.notifying state key) := by
  have later : world.Later (world.notifying state key) := by
    unfold notifying
    dsimp only
    split
    · exact later_holds world _
    · exact (later_note world _).trans (later_holds _ _)
  have hosts : (world.notifying state key).hosts = world.hosts := by
    unfold notifying
    dsimp only
    split <;> rfl
  have tends : world.Tends (world.notifying state key) := by
    unfold notifying
    dsimp only
    split <;> exact .of_same rfl rfl rfl (fun _ held => List.mem_append_right _ held) (List.suffix_refl _)
  have tenure : world.Tenure (world.notifying state key) := .of_hosts later hosts
  exact ⟨tenure, fun proper => ⟨(Paces.notifying proper.furnished state key).furnished, tends.orderly proper.orderly,
    tenure.equips proper.equipped⟩⟩

theorem onward_lettingGo (world : World) (effect : EffectId) : world.Onward (world.lettingGo effect) where
  tenure := .closing world _
  proper proper :=
    have tends : world.Tends (world.lettingGo effect) := (Tending.plain.letsGo effect world).calm rfl
    ⟨(Pacing.calm_closes _ world proper.furnished).furnished, tends.orderly proper.orderly,
      (Tenure.closing world _).equips proper.equipped⟩

end World

namespace Task

/-- This is how a binding looks at its state. -/
def look (run : Runner) : Task → Live String
  | .interpolation state _ source => Live.interpolate run state source
  | .textBinding state _ source => Live.evaluateText run state source
  | .valueBinding state _ source => Live.evaluateText run state source
  | _ => pure ""

/-- This is the text that a binding whose source calls nothing sees in a store. -/
def seen (store : Store) : Task → String
  | .interpolation _ _ source => (store.interpolate source).2
  | .textBinding _ _ source => (store.evaluateText source).2
  | .valueBinding _ _ source => (store.evaluateText source).2
  | _ => ""

/-- The node of a binding shows a text. -/
def present (text : String) (forest : Forest Handler) : Task → Forest Handler
  | .interpolation _ node _ => forest.setTextContent node text
  | .textBinding _ node _ => forest.setTextContent node text
  | .valueBinding _ node _ => forest.refreshValue node text
  | _ => forest

end Task

namespace Live

/-- A binding looks at its state as it is before, and its node shows what it saw. -/
def Displays (run : Runner) (bound : EffectId) (state : TargetId) (before after : World) : Prop :=
  ∃ task begun middle text, before.HasTask bound task ∧ task.owner? = some state ∧ before.isAlive state = true ∧
    begun.targets = before.targets ∧ begun.forest = before.forest ∧ task.look run begun = .ok text middle ∧
    after.forest = task.present text middle.forest ∧
    ∀ store, before.store? state = some store → task.isModest = true →
      text = task.seen store ∧ middle.forest = before.forest

variable {world after final : World} {id : HostId} {effect bound : EffectId} {depth : Nat} {state : TargetId}
  {key : String}

/-- What a binding does while its state lives. -/
theorem performTask_of_owner {task : Task} (owned : task.owner? = some state) (run : Runner) :
    ∃ shows : String → Live Unit,
      performTask run task = (do whileAlive state (do shows (← task.look run)); pure .null) ∧
      ∀ (text : String) {middle last : World}, shows text middle = .ok () last →
        last.forest = task.present text middle.forest := by
  cases task with
  | script => cases owned
  | render => cases owned
  | interpolation owner node source =>
      cases owned
      refine ⟨showAt node, rfl, fun text middle last shown => ?_⟩
      cases shown
      rfl
  | textBinding owner node source =>
      cases owned
      refine ⟨showAt node, rfl, fun text middle last shown => ?_⟩
      cases shown
      rfl
  | valueBinding owner node source =>
      cases owned
      refine ⟨fun text => do if (← get).forest.value node ≠ text then modifyForest (·.setValue node text), rfl,
        fun text middle last shown => ?_⟩
      change (if middle.forest.value node ≠ text then modifyForest (·.setValue node text) else pure () : Live Unit)
        middle = .ok () last at shown
      unfold Task.present Forest.refreshValue
      split at shown
      · rename_i other
        cases shown
        exact (if_pos other).symm
      · rename_i same
        cases shown
        exact (if_neg same).symm

/-- What a binding whose source calls nothing looks at is what it sees. -/
theorem look_of_isModest {run : Runner} {task : Task} {store : Store} {text : String} {middle : World}
    (owned : task.owner? = some state) (modest : task.isModest = true) (stored : world.store? state = some store)
    (looked : task.look run world = .ok text middle) :
    text = task.seen store ∧ middle.forest = world.forest := by
  have reads : ∃ names read, task.look run world = .ok (task.seen store) read ∧ world.Reads state names read := by
    cases task with
    | script => cases owned
    | render => cases owned
    | interpolation owner node source =>
        cases owned
        exact ⟨_, interpolate_eq run stored modest⟩
    | textBinding owner node source =>
        cases owned
        exact ⟨_, evaluateText_eq run stored modest⟩
    | valueBinding owner node source =>
        cases owned
        exact ⟨_, evaluateText_eq run stored modest⟩
  obtain ⟨names, read, same, parses, notices, rfl⟩ := reads
  cases same.symm.trans looked
  exact ⟨rfl, rfl⟩

theorem whileAlive_eq_ok {action : Live Unit} (alive : world.isAlive state = true)
    (returned : whileAlive state action world = .ok () after) :
    ∃ last, (do hold (.state state); action) world = .ok () last ∧
      after = { last with holds := world.holds }.collect := by
  unfold whileAlive at returned
  rw [get_bind, if_pos alive] at returned
  unfold operation ending at returned
  dsimp only at returned
  split at returned
  · rename_i last inside
    cases returned
    exact ⟨last, inside, rfl⟩
  · cases returned

/-- A run of an effect enters it, does its task, and takes it off the stack. -/
theorem runBody_eq_ok {known : Effect Task} {action : Live Unit}
    (performs : performTask (runTo depth) known.task = (do action; pure .null))
    (returned : runBody (runTo (depth + 1)) bound known world = .ok () after) :
    ∃ ended, action (world.entered (some bound)) = .ok () ended ∧
      after = { ended with graph := ended.graph.pop }.collect := by
  have runs : runBody (runTo (depth + 1)) bound known world =
      ending (discard (performTask (runTo depth) known.task))
        (fun last => { last with graph := last.graph.pop }.collect) (world.entered (some bound)) := rfl
  rw [runs, performs] at returned
  unfold ending at returned
  rw [discard_apply] at returned
  cases outcome : action (world.entered (some bound)) with
  | ok _ ended =>
      rw [bind_of_ok outcome] at returned
      cases returned
      exact ⟨ended, rfl, rfl⟩
  | error stop ended =>
      rw [bind_of_error outcome] at returned
      cases returned

/-- What is shown while a state lives was looked at in the targets and the forest of before. -/
theorem shown_of_whileAlive {looks : Live String} {shows : String → Live Unit} (alive : world.isAlive state = true)
    (returned : whileAlive state (do shows (← looks)) world = .ok () after) :
    ∃ begun text middle last, begun.targets = world.targets ∧ begun.forest = world.forest ∧
      looks begun = .ok text middle ∧ shows text middle = .ok () last ∧ after.forest = last.forest := by
  obtain ⟨last, inside, rfl⟩ := whileAlive_eq_ok alive returned
  obtain ⟨_, begun, holds, inside⟩ := bind_eq_ok.mp inside
  obtain ⟨text, middle, looking, shown⟩ := bind_eq_ok.mp inside
  have same : begun.targets = world.targets ∧ begun.forest = world.forest := by
    cases holds
    dsimp only
    split <;> exact ⟨rfl, rfl⟩
  exact ⟨begun, text, middle, last, same.1, same.2, looking, shown, (World.sweeps_collect _).forest⟩

/-- A binding that runs while its state lives shows what it sees. -/
theorem displays_of_attempt (looks : world.LooksAt bound state) (alive : world.isAlive state = true)
    (attempt : Attempt (runTo depth) bound world true after) :
    ∃ lower, depth = lower + 1 ∧ Displays (runTo lower) bound state world after := by
  cases attempt with
  | @ran world known found lasting idle body =>
      cases depth with
      | zero => cases body
      | succ lower =>
          obtain ⟨task, ⟨effect, looked, rfl⟩, owned⟩ := looks
          cases found.symm.trans looked
          obtain ⟨shows, performs, presents⟩ := performTask_of_owner owned (runTo lower)
          obtain ⟨ended, returned, rfl⟩ := runBody_eq_ok performs body
          obtain ⟨begun, text, middle, last, targets, forest, looking, shown, drawn⟩ :=
            shown_of_whileAlive (show (world.entered (some bound)).isAlive state = true from alive) returned
          refine ⟨lower, rfl, known.task, begun, middle, text, ⟨known, found, rfl⟩, owned, alive, targets, forest,
            looking, ?_, fun store stored modest => ?_⟩
          · rw [(World.sweeps_collect _).forest]
            exact drawn.trans (presents text shown)
          · have there : begun.store? state = some store := by
              unfold World.store? at stored ⊢
              rwa [targets]
            obtain ⟨sees, same⟩ := look_of_isModest owned modest there looking
            exact ⟨sees, same.trans forest⟩

/-- A binding has its turn among other effects. It runs unless it is disposed or running then. If it runs then its
state lives, and its node shows what it sees. -/
def HasTurn (depth : Nat) (bound : EffectId) (state : TargetId) (world : World) (ids : List EffectId) (final : World) :
    Prop :=
  ∃ early ran late before after, (early ++ (bound, ran) :: late).map Prod.fst = ids ∧
    Turns (runTo depth) world early before ∧ Attempt (runTo depth) bound before ran after ∧
    Turns (runTo depth) (after.lettingGo bound) late final ∧ before.graph.stack = world.graph.stack ∧
    (ran = true ↔ before.graph.isDisposed bound = false ∧ some bound ∉ before.graph.stack) ∧
    (ran = true → ∃ lower, depth = lower + 1 ∧ Displays (runTo lower) bound state before after)

/-- A notification gives the render effect of a host its turn. If the host is mounted then and its template does
not parse, nothing comes of the turn, and the bindings of the host that the notification concerns have theirs. -/
def Outlasts (depth : Nat) (id : HostId) (effect : EffectId) (state : TargetId) (key : String)
    (world final : World) : Prop :=
  ∃ early ran late before after ended, Turns (runTo depth) (world.notifying state key) early before ∧
    Attempt (runTo depth) effect before ran after ∧ Turns (runTo depth) (after.lettingGo effect) late ended ∧
    (early ++ (effect, ran) :: late).map Prod.fst = world.graph.concerned state key ∧
    final = { ended with holds := world.holds }.collect ∧
    ∀ host error, ran = true → before.host? id = some host → host.alive = true → host.mounted = true →
      Markup.parse host.component.template = .error error →
        before.Fruitless id [.refused, .ended, .began] after ∧
        before.graph.Reran effect ⟨host.state, .any⟩ after.graph ∧
        ∀ bound ∈ host.bindings.effects, bound ∈ world.graph.concerned state key →
          HasTurn depth bound host.state (after.lettingGo effect) (late.map Prod.fst) ended

/-- After each turn nothing is left for a collection. -/
theorem isCollected_of_runInTurn {run : Runner} {ids : List EffectId} (collected : world.IsCollected)
    (returned : runInTurn run ids world = .ok () final) : final.IsCollected := by
  induction ids generalizing world with
  | nil =>
      cases returned
      exact collected
  | cons first rest inductionHypothesis =>
      obtain ⟨_, middle, ran, returned⟩ := bind_eq_ok.mp returned
      obtain ⟨_, released, letting, later⟩ := bind_eq_ok.mp returned
      cases letting
      exact inductionHypothesis (World.isCollected_collect _) later

/-- A notification makes nobody refer to less. -/
theorem isCollected_notifying (collected : world.IsCollected) (state : TargetId) (key : String) :
    (world.notifying state key).IsCollected := by
  obtain ⟨holds, listed, same⟩ : ∃ holds, (∀ held ∈ world.holds, held ∈ holds) ∧
      ((world.notifying state key).IsCollected ↔ ({ world with holds } : World).IsCollected) := by
    unfold World.notifying
    dsimp only
    split <;> exact ⟨_, fun held => List.mem_append_right _, Iff.rfl⟩
  exact same.mpr (collected.holding listed)

/-- An effect that is attempted and runs is run. -/
theorem Attempt.runs {run : Runner} (attempt : Attempt run effect world true after) :
    runEffect run effect world = .ok () after := by
  cases attempt with
  | @ran _ known found lasting idle body =>
      have lives : ¬ known.disposed = true := by
        unfold Graph.isDisposed at lasting
        rw [found] at lasting
        simpa using lasting
      have free : ¬ world.graph.isRunning effect = true := by
        simpa [Graph.isRunning] using idle
      rwa [runEffect_apply run found, if_neg lives, if_neg free]

theorem Attempt.ran_iff {run : Runner} {ran : Bool} (attempt : Attempt run effect world ran after) :
    ran = true ↔ world.graph.isDisposed effect = false ∧ some effect ∉ world.graph.stack := by
  cases attempt with
  | ran _ lasting idle _ => exact iff_of_true rfl ⟨lasting, idle⟩
  | passed barred _ _ =>
      refine iff_of_false Bool.false_ne_true fun free => ?_
      rcases barred with gone | busy
      · cases free.1.symm.trans gone
      · exact free.2 busy

/-- Effects that have their turns go on as they go on one by one. -/
theorem onward_runEffect (returned : runEffect (runTo depth) effect world = .ok () after) : world.Onward after where
  tenure := (Tenure.runEffect (Tenure.keeps depth) effect world).calm returned
  proper proper :=
    have paces := Pacing.paces_runTo depth
    have furnished := Pacing.owes_runEffect paces.1 paces.2 effect world proper.furnished
    have tends : world.Tends after := (Tending.runEffect (Runner.keeps_runTo World.Tends.refl
      (fun depth _ => lawful_tending depth) depth) effect world).calm returned
    ⟨(worldAfter_of_ok returned ▸ furnished).furnished, tends.orderly proper.orderly,
      ((Tenure.runEffect (Tenure.keeps depth) effect world).calm returned).equips proper.equipped⟩

theorem onward_runInTurn {ids : List EffectId} (returned : runInTurn (runTo depth) ids world = .ok () final) :
    world.Onward final := by
  induction ids generalizing world with
  | nil =>
      cases returned
      exact .refl _
  | cons first rest inductionHypothesis =>
      obtain ⟨_, after, ran, returned⟩ := bind_eq_ok.mp returned
      obtain ⟨_, released, letting, later⟩ := bind_eq_ok.mp returned
      cases letting
      exact (onward_runEffect ran).trans ((World.onward_lettingGo after first).trans (inductionHypothesis later))

/-- A binding of a living host has its turn between those of other effects. -/
theorem hasTurn_of_runInTurn {origin : World} {host : Host} {ids : List EffectId} (proper : origin.Proper)
    (onward : origin.Onward world) (found : origin.host? id = some host) (alive : host.alive = true)
    (listed : bound ∈ host.bindings.effects) (known : ∀ other ∈ ids, other < world.graph.effects.size)
    (member : bound ∈ ids) (returned : runInTurn (runTo depth) ids world = .ok () final) :
    HasTurn depth bound host.state world ids final := by
  obtain ⟨early, late, rfl⟩ := List.append_of_mem member
  rw [runInTurn_append] at returned
  obtain ⟨_, before, ranEarly, returned⟩ := bind_eq_ok.mp returned
  obtain ⟨_, after, ranOwn, returned⟩ := bind_eq_ok.mp returned
  obtain ⟨_, released, letting, ranLate⟩ := bind_eq_ok.mp returned
  cases letting
  have first := onward_runInTurn ranEarly
  have second := (onward_runEffect ranOwn).trans (World.onward_lettingGo after bound)
  have least := first.tenure.later.effects
  obtain ⟨earlyTurns, chain, earlyIds⟩ := turns_of_runInTurn
    (fun other inside => known other (List.mem_append_left _ inside)) ranEarly
  obtain ⟨ran, attempt⟩ := attempt_of_runEffect (Nat.lt_of_lt_of_le (known bound member) least) ranOwn
  obtain ⟨lateTurns, rest, lateIds⟩ := turns_of_runInTurn (fun other inside => Nat.lt_of_lt_of_le
    (known other (List.mem_append_right _ (List.mem_cons_of_mem _ inside)))
      (Nat.le_trans least second.tenure.later.effects)) ranLate
  refine ⟨earlyTurns, ran, lateTurns, before, after, ?_, chain, attempt, rest, first.tenure.later.stack,
    attempt.ran_iff, ?_⟩
  · rw [List.map_append, List.map_cons, earlyIds, lateIds]
  · rintro rfl
    -- A binding that is not disposed yet is still one of the host, and the host lives.
    have reached := onward.trans first
    have still := reached.tenure.keeps proper.furnished.reachable proper.furnished.sound id bound
      ⟨host, found, alive, listed⟩
    obtain ⟨newer, there, lives, bound⟩ := still.resolve_right fun gone => by
      cases (attempt.ran_iff.mp rfl).1.symm.trans gone
    obtain ⟨last, looked, -, state, -⟩ := reached.tenure.later.hosts id host found
    cases there.symm.trans looked
    have last := reached.proper proper
    rw [← state]
    exact displays_of_attempt (last.equipped id newer there _ bound) (last.orderly.housed id newer there lives) attempt

/-- The turn of a render effect comes to nothing if the template does not parse then. -/
theorem fruitless_of_attempt {host : Host} {error : TemplateError} (has : world.HasTask effect (.render id))
    (collected : world.IsCollected) (found : world.host? id = some host) (alive : host.alive = true)
    (mounted : host.mounted = true) (failed : Markup.parse host.component.template = .error error)
    (attempt : Attempt (runTo depth) effect world true after) :
    world.Fruitless id [.refused, .ended, .began] after ∧
      world.graph.Reran effect ⟨host.state, .any⟩ after.graph := by
  obtain ⟨lasting, idle⟩ := attempt.ran_iff.mp rfl
  cases depth with
  | zero =>
      cases attempt with
      | ran _ _ _ body => cases body
  | succ lower =>
      obtain ⟨last, runs, fruitless, reran, -⟩ :=
        runEffect_of_failing lower has lasting idle found alive mounted failed collected
      cases attempt.runs.symm.trans runs
      exact ⟨fruitless, reran⟩

theorem outlasts_of_trigger (proper : world.Proper) (collected : world.IsCollected)
    (has : world.HasTask effect (.render id)) (listens : effect ∈ world.graph.concerned state key)
    (returned : trigger (runTo depth) state key world = .ok () final) :
    Outlasts depth id effect state key world final := by
  obtain ⟨early, late, parts⟩ := List.append_of_mem listens
  obtain ⟨before, after, ended, ranEarly, ranOwn, ranLate, rfl⟩ := turn_of_trigger parts returned
  have first := (World.onward_notifying world state key).trans (onward_runInTurn ranEarly)
  have second := (onward_runEffect ranOwn).trans (World.onward_lettingGo after effect)
  have there := first.proper proper
  have known : ∀ other ∈ early ++ effect :: late, other < world.graph.effects.size := by
    obtain ⟨moves, path⟩ := proper.furnished.reachable
    exact fun other member => known_of_mem_concerned path (parts ▸ member)
  have knownLate : ∀ other ∈ late, other < (after.lettingGo effect).graph.effects.size := fun other member =>
    Nat.lt_of_lt_of_le (known other (List.mem_append_right _ (List.mem_cons_of_mem _ member)))
      (first.trans second).tenure.later.effects
  obtain ⟨earlyTurns, chain, earlyIds⟩ := turns_of_runInTurn (fun other member => by
    rw [graph_notifying]
    exact known other (List.mem_append_left _ member)) ranEarly
  obtain ⟨ran, attempt⟩ := attempt_of_runEffect (first.tenure.later.hasTask has).lt_size ranOwn
  obtain ⟨lateTurns, rest, lateIds⟩ := turns_of_runInTurn knownLate ranLate
  refine ⟨earlyTurns, ran, lateTurns, before, after, ended, chain, attempt, rest, ?_, rfl, ?_⟩
  · rw [parts, List.map_append, List.map_cons, earlyIds, lateIds]
  · rintro host error rfl found alive mounted failed
    obtain ⟨fruitless, reran⟩ := fruitless_of_attempt (first.tenure.later.hasTask has)
      (isCollected_of_runInTurn (isCollected_notifying collected state key) ranEarly) found alive mounted failed attempt
    refine ⟨fruitless, reran, fun bound listed concerned => ?_⟩
    rw [lateIds]
    refine hasTurn_of_runInTurn there second found alive listed knownLate ?_ ranLate
    -- Bindings of a host are younger than its render effect, so that their turns come after it.
    obtain ⟨older, renders, younger⟩ := there.furnished.bound id bound ⟨host, found, listed⟩
    cases there.furnished.unique older effect id renders (first.tenure.later.hasTask has)
    have sorted := world.graph.pairwise_concerned state key
    rw [parts] at sorted concerned
    rcases List.mem_append.mp concerned with sooner | later
    · have less := (List.pairwise_append.mp sorted).2.2 bound sooner effect List.mem_cons_self
      exact absurd younger (Nat.lt_asymm less)
    · exact (List.mem_cons.mp later).resolve_left (Nat.ne_of_gt younger)

/-- If the render effect has the first turn, then what is said of it applies to the host as it is when the
notification begins. -/
theorem hasTurn_of_outlasts {host : Host} {error : TemplateError} {rest : List EffectId}
    (outlasts : Outlasts depth id effect state key world final)
    (order : world.graph.concerned state key = effect :: rest) (distinct : effect ∉ rest)
    (lasting : world.graph.isDisposed effect = false) (idle : some effect ∉ world.graph.stack)
    (found : world.host? id = some host) (alive : host.alive = true) (mounted : host.mounted = true)
    (failed : Markup.parse host.component.template = .error error) (listed : bound ∈ host.bindings.effects)
    (concerned : bound ∈ world.graph.concerned state key) :
    ∃ drawn late ended, (world.notifying state key).Fruitless id [.refused, .ended, .began] drawn ∧
      HasTurn depth bound host.state (drawn.lettingGo effect) late ended := by
  obtain ⟨early, ran, late, before, drawn, ended, first, attempt, -, turns, -, comes⟩ := outlasts
  obtain rfl : early = [] := by
    cases early with
    | nil => rfl
    | cons turn others =>
        rw [order, List.cons_append, List.map_cons, List.map_append, List.map_cons] at turns
        have member : effect ∈ rest := (List.cons.inj turns).2 ▸ List.mem_append_right _ List.mem_cons_self
        exact absurd member distinct
  cases first
  have ready : ran = true := by
    rw [attempt.ran_iff, graph_notifying]
    exact ⟨lasting, idle⟩
  have there : (world.notifying state key).host? id = some host := by
    unfold World.notifying
    dsimp only
    split <;> exact found
  obtain ⟨fruitless, -, attends⟩ := comes host error ready there alive mounted failed
  exact ⟨drawn, _, ended, fruitless, attends bound listed concerned⟩

end Live

/-! Writes from outside. -/

namespace World

variable {world : World} {state : TargetId} {key : String} {value : Value} {holds : List Hold}

theorem isCollected_of_settled (settled : world.Settled) : world.IsCollected :=
  ⟨hostsToEnd_eq_nil settled, statesToEnd_eq_nil settled⟩

theorem Proper.storing (proper : world.Proper) : (world.storing holds state key value).Proper where
  furnished := proper.furnished.later (world.later_storing holds state key value) rfl fun entry member =>
    ⟨entry, member, rfl⟩
  orderly := by
    have held : ({ world.forget with holds } : World).Orderly :=
      ⟨proper.orderly.reachable, proper.orderly.cleared, proper.orderly.housed⟩
    refine (Tends.modifyStore _ state ?_).orderly held
    exact fun _ => rfl
  equipped := (Tenure.of_hosts (world.later_storing holds state key value) rfl).equips proper.equipped

/-- Whatever commands are played, worlds are proper. -/
theorem proper_play (commands : List Command) : (empty.play commands).2.Proper where
  furnished := furnished_play commands
  orderly := (tends_play empty commands).orderly orderly_empty
  equipped := by
    have tenure : empty.Tenure (empty.play commands).2 :=
      play_follows_always lawful_tenure (fun world => .of_hosts (later_forget world) rfl) empty commands
    exact tenure.equips fun id host found => by simp [empty, host?] at found

/-- A state keeps what it keeps when a value is stored. -/
theorem settled_storing (settled : world.Settled) : (world.storing holds state key value).Settled where
  hosts := settled.hosts
  states id alive := by
    unfold storing at alive
    rw [isAlive_modifyStore] at alive
    · have keeps : world.KeepsState id := settled.states id alive
      exact keeps
    · exact fun _ => rfl

end World

/-- A render whose template does not parse changes nothing, whoever asks for it: there is no difference but what
the host tells, and nodes that hang nowhere. If a notification makes the render, then the host announces no update,
and its bindings that the notification concerns have their turns after the one of the render effect. Each of them
runs unless it is disposed or running then, and shows what it sees then. -/
theorem failed_renders_change_nothing (id : HostId) :
    (∀ (run : Runner) (world : World) host error, world.host? id = some host →
      Markup.parse host.component.template = .error error →
        (∃ after, Live.renderAsked run id world = .ok (.error error) after ∧
          world.Fruitless id [.refused, .ended, .began, .asked .render] after ∧ after.graph = world.graph ∧
          after.notices = world.notices) ∧
        ∃ after, Live.mountHost run id world = .ok (.error error) after ∧
          world.Fruitless id [.refused, .ended, .began, .asked .mount] after ∧ after.graph = world.graph ∧
          after.notices = world.notices) ∧
    (∀ depth (world : World) effect state key final, world.Proper → world.IsCollected →
      world.HasTask effect (.render id) → effect ∈ world.graph.concerned state key →
      Live.trigger (Live.runTo depth) state key world = .ok () final →
        Live.Outlasts depth id effect state key world final) ∧
    ∀ commands (write : Write) effect state,
      let world := (World.empty.play commands).2
      world.HasTask effect (.render id) → world.stateFor? write.state = some state →
      write.key ≠ Live.reservedKey → effect ∈ world.graph.concerned state write.key →
      (world.step write.command).1.isCalm = true →
        ∃ holds value final, (world.storing holds state write.key value).graph.stack = [] ∧
          Live.Outlasts (Live.depthOf world) id effect state write.key (world.storing holds state write.key value)
            final ∧
          (world.step write.command).2 = { final with holds := world.holds }.collect := by
  refine ⟨fun run world host error found failed => ?_, fun depth world effect state key final => ?_,
    fun commands write effect state => ?_⟩
  · exact ⟨Live.renderAsked_of_failing run found failed, Live.mountHost_of_failing run found failed⟩
  · exact Live.outlasts_of_trigger
  · intro world has named free listens calm
    obtain ⟨idle, settled⟩ := World.idle_play commands rfl rfl World.settled_empty
    obtain ⟨holds, value, final, notifies, same⟩ := World.step_eq_of_write named free calm
    have stores := world.later_storing holds state write.key value
    refine ⟨holds, value, final, stores.stack.trans idle, ?_, same⟩
    exact Live.outlasts_of_trigger (World.proper_play commands).storing
      (World.isCollected_of_settled (World.settled_storing settled)) (stores.hasTask has) listens notifies

/-- The host of a mounted counter gets a template that does not parse. -/
def refusingCounter : List Command := mountedCounter ++ [.host (.setTemplate "h" "</p>")]

/-- A render effect refuses in its turn, and the old binding shows the new value in its own. -/
theorem failed_render_of_refusingCounter :
    let world := (World.empty.play refusingCounter).2
    let after := (world.step (Write.set "h" "n" (.integer 1)).command).2
    (∃ error last, Live.renderAsked (Live.runTo 0) 0 world = .ok (.error error) last ∧ last.graph = world.graph) ∧
      (∃ error last, Live.mountHost (Live.runTo 0) 0 world = .ok (.error error) last ∧ last.graph = world.graph) ∧
      (∃ drawn late ended, Live.HasTurn 2 1 0 drawn late ended) ∧
      (∃ holds value final, Live.Outlasts (Live.depthOf world) 0 0 0 "n" (world.storing holds 0 "n" value) final) ∧
      after.forest.innerHtml 1 = "<p>1</p>" := by
  intro world after
  obtain ⟨asked, triggered, written⟩ := failed_renders_change_nothing 0
  have record : (world.host? 0).map (fun host =>
      (host.alive, host.mounted, host.state, host.bindings.effects, host.component.template)) =
        some (true, true, 0, [1], "</p>") := by decide +kernel
  obtain ⟨host, found, same⟩ := Option.map_eq_some_iff.mp record
  obtain ⟨alive, mounted, state, bound, template⟩ : host.alive = true ∧ host.mounted = true ∧ host.state = 0 ∧
      host.bindings.effects = [1] ∧ host.component.template = "</p>" := by simpa using same
  have fails : (Markup.read "</p>").error.isSome = true := by decide +kernel
  obtain ⟨error, broken⟩ := Option.isSome_iff_exists.mp fails
  have failed : Markup.parse host.component.template = .error error := by
    rw [template]
    exact Markup.parse_eq_error.mpr broken
  have renderer : (world.graph.effect? 0).any (fun effect => effect.task matches .render 0) = true := by
    decide +kernel
  have has : world.HasTask 0 (.render 0) := by
    obtain ⟨effect, known, task⟩ := (Option.any_eq_true _ _).mp renderer
    refine ⟨effect, known, ?_⟩
    split at task
    · assumption
    · cases task
  have concerned : world.graph.concerned 0 "n" = [0, 1] := by decide +kernel
  have listens : 0 ∈ world.graph.concerned 0 "n" := by simp [concerned]
  obtain ⟨renders, mounts⟩ := asked (Live.runTo 0) world host error found failed
  obtain ⟨rendered, renders, -, renderedGraph, -⟩ := renders
  obtain ⟨remounted, mounts, -, mountedGraph, -⟩ := mounts
  obtain ⟨-, settled⟩ := World.idle_play refusingCounter rfl rfl World.settled_empty
  have returns : (Live.trigger (Live.runTo 2) 0 "n" world matches .ok ..) = true := by decide +kernel
  obtain ⟨final, notifies⟩ : ∃ final, Live.trigger (Live.runTo 2) 0 "n" world = .ok () final := by
    cases outcome : Live.trigger (Live.runTo 2) 0 "n" world with
    | ok _ final => exact ⟨final, rfl⟩
    | error stop final =>
        rw [outcome] at returns
        cases returns
  have outlasts := triggered 2 world 0 0 "n" final (World.proper_play refusingCounter)
    (World.isCollected_of_settled settled) has listens notifies
  obtain ⟨holds, value, last, still, turns, -⟩ := written refusingCounter (.set "h" "n" (.integer 1)) 0 0 has
    (by decide +kernel) (by decide) listens (by decide +kernel)
  have listed : 1 ∈ host.bindings.effects := by
    rw [bound]
    exact List.mem_singleton_self 1
  obtain ⟨drawn, late, ended, -, turn⟩ := Live.hasTurn_of_outlasts outlasts concerned (by decide) (by decide +kernel)
    (by decide +kernel) found alive mounted failed listed (by decide +kernel)
  exact ⟨⟨error, _, renders, renderedGraph⟩, ⟨error, _, mounts, mountedGraph⟩,
    ⟨_, late, ended, state ▸ turn⟩, ⟨holds, value, last, turns⟩, by decide +kernel⟩

/-- A page with a host that counts in a method once it is told to. -/
def countingPage : List Command :=
  [.node (.parse "doc" "<div id=\"app\"></div>"),
    .createHost "doc"
      { name := "h", selector := "#app", initial := .object [("n", .integer 0), ("on", .bool false)]
        template := "<p>\x7b\x7b n \x7d\x7d\x7b\x7b bump() \x7d\x7d</p>", hooks := [], rendered := none
        methods := [("bump", [.branch "h" "on" [.once "t" [.state (.set "h" "n" (.integer 1))]] [],
          .value (.string "")])] }]

/-- The counter of a host, what the host shows, and how often an effect ran. -/
def World.counted (world : World) (effect : EffectId) : Option String × String × Option Nat :=
  ((world.store? 0).map fun store => (store.evaluateText "n").2, world.forest.innerHtml 1,
    (world.graph.effect? effect).map Effect.runs)

/-- In each of these plays a binding is subscribed to a counter when a write to the counter makes a render that
fails, and still the binding does not run in the same notification. In the first play the write is a part of the
run of the binding itself. In the other ones an effect whose turn is earlier destroys the host, or panics. -/
theorem failed_renders_leave_old_values :
    let world := fun commands => (World.empty.play commands).2
    let refuse : List Command := [.host (.mount "h"), .host (.setTemplate "h" "</p>")]
    let write : List Command := [.state (.set "h" "n" (.integer 1))]
    let told : List Command := [.state (.set "h" "on" (.bool true))]
    let watching := fun command => counterPage none ++ [.createEffect "e" [.branch "h" "n" [command] []] {}] ++ refuse
    let destroying := watching (.host (.destroy "h"))
    let panicking := watching (.panic (some "stop"))
    (1 ∈ (world (countingPage ++ refuse)).graph.concerned 0 "n" ∧
      (world (countingPage ++ refuse)).counted 1 = (some "0", "<p>0</p>", some 1) ∧
      (world (countingPage ++ refuse ++ told)).counted 1 = (some "1", "<p>0</p>", some 2)) ∧
    (2 ∈ (world destroying).graph.concerned 0 "n" ∧
      (world destroying).counted 2 = (some "0", "<p>0</p>", some 1) ∧
      (world (destroying ++ write)).counted 2 = (some "1", "", some 1)) ∧
    2 ∈ (world panicking).graph.concerned 0 "n" ∧
      (world panicking).counted 2 = (some "0", "<p>0</p>", some 1) ∧
      (world (panicking ++ write)).counted 2 = (some "1", "<p>0</p>", some 1) := by
  intro world refuse write told watching destroying panicking
  decide +kernel

end LiveMarkup
