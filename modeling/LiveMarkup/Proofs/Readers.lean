import LiveMarkup.Proofs.Notification
import LiveMarkup.Proofs.Undisturbed

/-
This file tells which effects a sequence of writes runs if the effects only read. Each write runs all
effects that have ever read what is written, once each, in the order of their creation.
-/

namespace LiveMarkup

namespace World

/-- The effects whose scripts started, the latest one in front. -/
def started (world : World) : List String :=
  world.happenings.filterMap fun happening =>
    match happening with
    | .effectStarted name => some name
    | _ => none

/-- All methods that are scripts only read. -/
def MethodsRead (world : World) : Prop :=
  ∀ id store name body, world.store? id = some store →
    Assoc.get? store.methods name = some (.script body) → Script.onlyReads false body = true

/-- Effects that only read may run. Methods matter only where they may be called. -/
structure Ready (total : Bool) (world : World) : Prop where
  settled : world.Settled
  methods : total = false → world.MethodsRead

theorem Ready.later {total : Bool} {before after : World} (ready : before.Ready total)
    (undisturbed : before.Undisturbed after) : after.Ready total where
  settled := undisturbed.settled ready.settled
  methods mayCall id store name body found listed := by
    have same := undisturbed.stores id
    rw [found] at same
    obtain ⟨older, known, equal⟩ := Option.map_eq_some_iff.mp same.symm
    have methods := congrArg Store.methods equal
    refine ready.methods mayCall id older name body known ?_
    exact (congrArg (Assoc.get? · name) methods).trans listed

/-- Between these worlds nothing ran but the code of one reader, and it only read. -/
structure OnlyRead (before after : World) : Prop extends Undisturbed before after where
  started : after.started = before.started
  readers : Graph.ReadsOnlyIn before.graph.active? before.graph after.graph

namespace OnlyRead

variable {first second third : World}

theorem refl (world : World) : world.OnlyRead world := ⟨.refl world, rfl, fun _ _ => rfl⟩

theorem trans (early : first.OnlyRead second) (late : second.OnlyRead third) :
    first.OnlyRead third where
  toUndisturbed := early.toUndisturbed.trans late.toUndisturbed
  started := late.started.trans early.started
  readers := by
    have readers := late.readers
    rw [early.graph.active?] at readers
    exact early.readers.trans readers

theorem of_same {before after : World} (graph : after.graph = before.graph)
    (hosts : after.hosts = before.hosts) (targets : after.targets = before.targets)
    (names : after.names = before.names) (started : after.started = before.started) :
    before.OnlyRead after := by
  refine ⟨.of_same graph hosts targets names, started, ?_⟩
  rw [graph]
  exact fun _ _ => rfl

end OnlyRead

/-- A frame that is left has disturbed nothing if what ran in it has not. -/
theorem Undisturbed.leave {before after : World} {frame : Option EffectId}
    (settled : before.Settled) (undisturbed : (before.entered frame).Undisturbed after) :
    { after with graph := after.graph.pop }.collect = { after with graph := after.graph.pop } ∧
      before.Undisturbed { after with graph := after.graph.pop } := by
  have pushed : (before.graph.push frame).Quiet (before.entered frame).graph := by
    cases frame with
    | none => exact .refl _
    | some id => exact .countRun _ id
  have quiet := (pushed.trans undisturbed.graph).inFrame
  have left : before.Undisturbed { after with graph := after.graph.pop } :=
    ⟨quiet, undisturbed.hosts, undisturbed.stores, undisturbed.states, undisturbed.handles,
      undisturbed.effects, undisturbed.hostNames⟩
  exact ⟨collect_eq_self (left.settled settled), left⟩

theorem Settled.entered {world : World} (settled : world.Settled) (frame : Option EffectId) :
    (world.entered frame).Settled := by
  have pushed : ({ world with graph := world.graph.push frame } : World).Settled :=
    ⟨settled.hosts, settled.states⟩
  cases frame with
  | none => exact pushed
  | some id => exact pushed.graph (.countRun _ id)

theorem Ready.entered {total : Bool} {world : World} (ready : world.Ready total)
    (frame : Option EffectId) : (world.entered frame).Ready total :=
  ⟨ready.settled.entered frame, ready.methods⟩

end World

/-- Code that only reads. If it is total, it does not break off. -/
def Conduct.reading (total : Bool) : Conduct where
  calm before after := before.Ready total → before.OnlyRead after
  broken before after := before.Ready total → total = false ∧ before.OnlyRead after
  refl world _ := .refl world
  trans early late ready := by
    have first := early ready
    exact first.trans (late (ready.later first.toUndisturbed))
  carry early late ready := by
    have first := early ready
    obtain ⟨mayStop, second⟩ := late (ready.later first.toUndisturbed)
    exact ⟨mayStop, first.trans second⟩
  settle early late ready := by
    obtain ⟨mayStop, first⟩ := early ready
    exact ⟨mayStop, first.trans (late (ready.later first.toUndisturbed))⟩

namespace Reading

open Live

variable {total : Bool} {world : World}

/-- It suffices to look at worlds that are ready. -/
theorem of_ready {A : Type} {action : Live A}
    (follows : world.Ready total → Follows (Conduct.reading total) action world) :
    Follows (Conduct.reading total) action world := by
  unfold Follows at follows ⊢
  cases outcome : action world with
  | ok value after =>
      rw [outcome] at follows
      exact fun ready => follows ready ready
  | error stop after =>
      rw [outcome] at follows
      cases stop <;> exact fun ready => follows ready ready

theorem untracks {A : Type} (action : Live A) (world : World)
    (follows : Follows (Conduct.reading total) action
      { world with graph := world.graph.push none }) :
    Follows (Conduct.reading total) (untracked action) world := by
  have leaves : ∀ after, (world.entered none).OnlyRead after → world.Ready total →
      world.OnlyRead { after with graph := after.graph.pop }.collect := by
    intro after inside ready
    obtain ⟨same, undisturbed⟩ := World.Undisturbed.leave ready.settled inside.toUndisturbed
    rw [same]
    refine ⟨undisturbed, inside.started, ?_⟩
    intro id _
    exact inside.readers id (by simp [World.entered, Graph.moved])
  have enters : world.Ready total → (world.entered none).Ready total :=
    fun ready => ready.entered none
  refine Follows.inFrame follows (fun after inside ready => leaves after (inside (enters ready)) ready)
    fun after inside ready => ?_
  obtain ⟨mayStop, undisturbed⟩ := inside (enters ready)
  exact ⟨mayStop, leaves after undisturbed ready⟩

theorem track (target : TargetId) (key : Key) (world : World) :
    Follows (Conduct.reading total) (Live.track target key) world := by
  apply Follows.modifies
  intro _
  obtain ⟨quiet, readers⟩ := Graph.Quiet.track world.graph ⟨target, key⟩
  exact ⟨.of_graph quiet rfl rfl rfl, rfl, readers⟩

/-- Nothing is left for a collection, whatever is held. -/
theorem closes (holds : List Hold) (world : World) :
    (Conduct.reading total).calm world { world with holds }.collect := by
  intro ready
  rw [World.collect_eq_self (ready.settled.holds holds)]
  exact .of_same rfl rfl rfl rfl rfl

theorem plain : Plain (Conduct.reading total) where
  finishes _ _ _ _ := .of_same rfl rfl rfl rfl rfl
  notes _ _ _ := .of_same rfl rfl rfl rfl rfl
  meets _ _ _ := .of_same rfl rfl rfl rfl rfl
  parses _ _ _ := .of_same rfl rfl rfl rfl rfl
  holds held world := by
    apply Follows.modifies
    intro _
    split
    · exact .refl world
    · exact .of_same rfl rfl rfl rfl rfl
  operates _ world follows := follows.ending fun after => closes world.holds after
  letsGo _ world := Follows.modifies (closes _ world)
  untracks := untracks
  tracks target key world _ := track target key world
  tracksByHand target key := .trackByHand
    (fun _ => Follows.modifies fun _ => .of_same rfl rfl rfl rfl rfl) (track target key)
  nodes nodes world _ :=
    ⟨⟨.refl world.graph, rfl, fun _ => rfl, rfl, rfl, rfl, rfl⟩, rfl, fun _ _ => rfl⟩

/-- A method that only reads may be called, unless everything must come to an end. -/
theorem calls {run : Runner}
    (methods : ∀ name body arguments after, Script.onlyReads false body = true →
      Follows (Conduct.reading false) (run (.method name body arguments)) after)
    (state : TargetId) (name : String) (arguments : List Value) (world : World) :
    Follows (Conduct.reading false) (callMethod run state name arguments) world := by
  apply of_ready
  intro ready
  refine (Plain.methodsOf state).bind fun known after outcome => ?_
  cases found : world.store? state with
  | none =>
      have empty : methodsOf state world = .ok [] world := by
        unfold methodsOf
        rw [get_bind, found]
        rfl
      rw [empty] at outcome
      cases outcome
      exact Follows.fails _
  | some store =>
      rw [methodsOf_eq found] at outcome
      cases outcome
      cases listed : Assoc.get? store.methods name with
      | none => exact Follows.fails _
      | some method =>
          cases method with
          | constant value => exact Follows.pure _
          | script body =>
              have reads := ready.methods rfl state store name body found listed
              exact (methods name body arguments world reads).catches fun _ _ _ => Follows.fails _

/-- Scripts that only read may call each other to any depth. -/
theorem reads_runTo (depth : Nat) (name : String) (body : Script) (arguments : List Value)
    (world : World) (reads : Script.onlyReads false body = true) :
    Follows (Conduct.reading false) (runTo depth (.method name body arguments)) world := by
  induction depth generalizing name body arguments world with
  | zero => exact fun _ => ⟨rfl, .refl world⟩
  | succ depth inductionHypothesis =>
      have recorded : Follows (Conduct.reading false) (record (.methodCalled name arguments)) world :=
        fun _ => .of_same rfl rfl rfl rfl rfl
      have called := calls inductionHypothesis
      exact recorded.bind fun _ after _ =>
        plain.readsAll (fun _ => called) (fun _ world _ => ⟨rfl, .refl world⟩) arguments .null after
          body reads

/-- The script of an effect follows the conduct of code that only reads. -/
theorem reads_script (depth : Nat) (body : Script) (world : World)
    (reads : Script.onlyReads total body = true) :
    Follows (Conduct.reading total) (swallowing (performAll (runTo depth) [] .null body)) world := by
  apply Plain.swallowing
  apply plain.readsAll _ _ [] .null world body reads
  · intro mayCall
    subst mayCall
    exact calls (reads_runTo depth)
  · intro mayCall world _
    exact ⟨mayCall, .refl world⟩

end Reading

/-- An effect that may run starts a script. -/
def Effect.script? (effect : Effect Task) : Option (String × Script) :=
  if effect.disposed then none
  else match effect.task with
    | .script name body => some (name, body)
    | _ => none

/-- An effect that may run only reads. -/
def Effect.onlyReads (total : Bool) (effect : Effect Task) : Bool :=
  effect.disposed || match effect.task with
    | .script _ body => Script.onlyReads total body
    | _ => false

namespace World

def scriptName? (world : World) (id : EffectId) : Option String :=
  ((world.graph.effect? id).bind Effect.script?).map Prod.fst

theorem Undisturbed.scriptName? {before after : World} (undisturbed : before.Undisturbed after) :
    after.scriptName? = before.scriptName? := by
  funext id
  have still : ∀ world : World, (world.graph.effect? id).bind Effect.script? =
      ((world.graph.effect? id).map Effect.still).bind Effect.script? := by
    intro world
    cases world.graph.effect? id <;> rfl
  unfold World.scriptName?
  rw [still, still, undisturbed.graph.effects]

/-- A write of a reserved key concerns nobody. -/
def concernedBy (world : World) (state : TargetId) (key : String) : List EffectId :=
  if key = Live.reservedKey then [] else world.graph.concerned state key

/-- An effect that only reads stays one. -/
theorem Undisturbed.onlyReads {before after : World} {total : Bool} {id : EffectId}
    (undisturbed : before.Undisturbed after)
    (reads : ∃ effect, before.graph.effect? id = some effect ∧ effect.onlyReads total = true) :
    ∃ effect, after.graph.effect? id = some effect ∧ effect.onlyReads total = true := by
  obtain ⟨effect, found, only⟩ := reads
  obtain ⟨newer, known, task, disposed, -⟩ := undisturbed.graph.effect? found
  refine ⟨newer, known, ?_⟩
  unfold Effect.onlyReads at only ⊢
  rw [task, disposed]
  exact only

/-- Between these worlds some effects ran that only read. -/
structure Ran (ids : List EffectId) (before after : World) : Prop extends Undisturbed before after where
  others : ∀ id ∉ ids, (after.graph.effect? id).map Effect.dependencies =
    (before.graph.effect? id).map Effect.dependencies

theorem Ran.trans {first second third : World} {ids others : List EffectId}
    (early : first.Ran ids second) (late : second.Ran others third) :
    first.Ran (ids ++ others) third where
  toUndisturbed := early.toUndisturbed.trans late.toUndisturbed
  others id absent := by
    rw [List.mem_append, not_or] at absent
    exact (late.others id absent.2).trans (early.others id absent.1)

theorem Ran.of_same {before after : World} (ids : List EffectId) (graph : after.graph = before.graph)
    (undisturbed : before.Undisturbed after) : before.Ran ids after := by
  refine ⟨undisturbed, ?_⟩
  rw [graph]
  exact fun _ _ => rfl

/-- Some effects ran, and these scripts started. Total effects come to an end. -/
def Starts {A : Type} (total : Bool) (ids : List EffectId) (names : List String) (before : World) :
    EStateM.Result Stop World A → Prop
  | .ok _ after => before.Ran ids after ∧ after.started = names ++ before.started
  | .error (.failed _) _ => False
  | .error (.panicked _) after => total = false ∧ before.Ran ids after
  | .error .exhausted after => total = false ∧ before.Ran ids after

end World

namespace Live

open World

variable {total : Bool} {world : World}

/-- What has been swallowed is no failure. -/
theorem swallowing_ne_failed (action : Live Value) (world after : World) (error : EvalError) :
    swallowing action world ≠ .error (.failed error) after := by
  unfold swallowing
  rw [tryCatch_apply]
  intro failed
  cases outcome : action world with
  | ok value final =>
      rw [outcome] at failed
      cases failed
  | error stop final =>
      rw [outcome] at failed
      cases stop <;> cases failed

theorem discard_swallowing_ne_failed (action : Live Value) (world after : World) (error : EvalError) :
    discard (swallowing action) world ≠ .error (.failed error) after := by
  intro failed
  rw [discard_apply] at failed
  cases outcome : swallowing action world with
  | ok value final =>
      rw [outcome] at failed
      cases failed
  | error stop final =>
      rw [outcome] at failed
      cases failed
      exact swallowing_ne_failed action world after error outcome

/-- An effect whose script only reads runs in its frame and leaves it. -/
theorem starts_runBody {depth : Nat} {id : EffectId} {effect : Effect Task} {name : String}
    {body : Script} (ready : world.Ready total) (task : effect.task = .script name body)
    (reads : Script.onlyReads total body = true) :
    world.Starts total [id] [name] (runBody (runTo (depth + 1)) id effect world) := by
  let inside := (world.entered (some id)).record (.effectStarted name)
  have reached : runBody (runTo (depth + 1)) id effect world =
      ending (discard (swallowing (performAll (runTo depth) [] .null body)))
        (fun after => { after with graph := after.graph.pop }.collect) inside := by
    unfold runBody
    rw [task]
    rfl
  have entered : (world.entered (some id)).Undisturbed inside := .of_same rfl rfl rfl rfl
  have readyInside : inside.Ready total := (ready.entered (some id)).later entered
  have leaves : ∀ after, inside.OnlyRead after →
      world.Ran [id] { after with graph := after.graph.pop }.collect ∧
        ({ after with graph := after.graph.pop }.collect).started = name :: world.started := by
    intro after read
    obtain ⟨same, undisturbed⟩ := Undisturbed.leave ready.settled (entered.trans read.toUndisturbed)
    rw [same]
    refine ⟨⟨undisturbed, ?_⟩, read.started⟩
    intro other absent
    have different : id ≠ other := fun same => absent (same ▸ List.mem_singleton_self id)
    have active : inside.graph.active? = some id := rfl
    have kept := read.readers other (by rw [active]; simpa using different)
    have counted : (inside.graph.effect? other).map Effect.dependencies =
        (world.graph.effect? other).map Effect.dependencies := by
      have same := Graph.effect?_countRun (world.graph.push (some id)) id other
      rw [if_neg different] at same
      exact congrArg (Option.map Effect.dependencies) same
    exact kept.trans counted
  have follows : Follows (Conduct.reading total) _ inside :=
    (Reading.reads_script depth body inside reads).discard
  rw [reached]
  unfold Follows at follows
  unfold ending
  cases outcome : discard (swallowing (performAll (runTo depth) [] .null body)) inside with
  | ok value after =>
      rw [outcome] at follows
      exact leaves after (follows readyInside)
  | error stop after =>
      rw [outcome] at follows
      cases stop with
      | failed error => exact discard_swallowing_ne_failed _ inside after error outcome
      | panicked payload =>
          obtain ⟨mayStop, read⟩ := follows readyInside
          exact ⟨mayStop, (leaves after read).1⟩
      | exhausted =>
          obtain ⟨mayStop, read⟩ := follows readyInside
          exact ⟨mayStop, (leaves after read).1⟩

/-- An effect that only reads starts its script, unless it is disposed. -/
theorem starts_runEffect {depth : Nat} {id : EffectId} {effect : Effect Task}
    (ready : world.Ready total) (idle : world.graph.stack = [])
    (found : world.graph.effect? id = some effect) (reads : effect.onlyReads total = true) :
    world.Starts total [id] (world.scriptName? id).toList
      (runEffect (runTo (depth + 1)) id world) := by
  rw [runEffect_apply _ found]
  unfold scriptName? Effect.script?
  rw [found]
  cases gone : effect.disposed with
  | true =>
      rw [if_pos rfl]
      simp only [Option.bind_some, gone, if_true, Option.map_none, Option.toList_none]
      exact ⟨.of_same _ rfl (.refl world), rfl⟩
  | false =>
      obtain ⟨name, body, task, only⟩ : ∃ name body, effect.task = .script name body ∧
          Script.onlyReads total body = true := by
        unfold Effect.onlyReads at reads
        rw [gone, Bool.false_or] at reads
        split at reads
        · rename_i name body task
          exact ⟨name, body, task, reads⟩
        · cases reads
      have free : world.graph.isRunning id = false := by simp [Graph.isRunning, idle]
      simp only [Option.bind_some, gone, free, task, Bool.false_eq_true, if_false,
        Option.map_some, Option.toList_some]
      exact starts_runBody ready task only

/-- What two pieces of code start, they start one after the other. -/
theorem starts_bind {A B : Type} {ids others : List EffectId} {names more : List String}
    {action : Live A} {next : A → Live B} (first : world.Starts total ids names (action world))
    (second : ∀ value after, action world = .ok value after → world.Ran ids after →
      after.Starts total others more (next value after)) :
    world.Starts total (ids ++ others) (more ++ names) ((action >>= next) world) := by
  rw [bind_apply]
  cases outcome : action world with
  | error stop after =>
      rw [outcome] at first
      cases stop with
      | failed error => exact first
      | panicked payload =>
          exact ⟨first.1, first.2.trans (.of_same others rfl (.refl after))⟩
      | exhausted => exact ⟨first.1, first.2.trans (.of_same others rfl (.refl after))⟩
  | ok value after =>
      rw [outcome] at first
      have continued := second value after outcome first.1
      dsimp only
      cases final : next value after with
      | ok result last =>
          rw [final] at continued
          refine ⟨first.1.trans continued.1, ?_⟩
          rw [continued.2, first.2, List.append_assoc]
      | error stop last =>
          rw [final] at continued
          cases stop with
          | failed error => exact continued
          | panicked payload => exact ⟨continued.1, first.1.trans continued.2⟩
          | exhausted => exact ⟨continued.1, first.1.trans continued.2⟩

/-- Code that only prepares something may come first. -/
theorem starts_after {A B : Type} {ids : List EffectId} {names : List String} {action : Live A}
    {next : A → Live B} {value : A} {after : World} (returned : action world = .ok value after)
    (undisturbed : world.Undisturbed after) (graph : after.graph = world.graph)
    (started : after.started = world.started)
    (rest : after.Starts total ids names (next value after)) :
    world.Starts total ids names ((action >>= next) world) := by
  have first : world.Starts total [] [] (action world) := by
    rw [returned]
    exact ⟨.of_same [] graph undisturbed, started⟩
  rw [← List.nil_append ids, ← List.append_nil names]
  refine starts_bind first fun _ _ again _ => ?_
  rw [returned] at again
  cases again
  exact rest

/-- What code returns makes no difference. -/
theorem starts_then {A B : Type} {ids : List EffectId} {names : List String} {action : Live A}
    {value : B} (first : world.Starts total ids names (action world)) :
    world.Starts total ids names ((do let _ ← action; pure value) world) := by
  rw [← List.append_nil ids, ← List.nil_append names]
  exact starts_bind first fun _ after _ _ => ⟨.of_same [] rfl (.refl after), rfl⟩

theorem toList_reverse {A : Type} (found : Option A) : found.toList.reverse = found.toList := by
  cases found <;> rfl

/-- After its turn an effect is let go, which ends nothing. -/
theorem starts_runInTurn {depth : Nat} {ids : List EffectId}
    (ready : world.Ready total) (idle : world.graph.stack = [])
    (reads : ∀ id ∈ ids, ∃ effect, world.graph.effect? id = some effect ∧ effect.onlyReads total = true) :
    world.Starts total ids (ids.flatMap fun id => (world.scriptName? id).toList).reverse
      (runInTurn (runTo (depth + 1)) ids world) := by
  induction ids generalizing world with
  | nil => exact ⟨.of_same _ rfl (.refl world), rfl⟩
  | cons id rest inductionHypothesis =>
      obtain ⟨effect, found, only⟩ := reads id List.mem_cons_self
      have turn : world.Starts total [id] (world.scriptName? id).toList
          (runEffect (runTo (depth + 1)) id world) := starts_runEffect ready idle found only
      rw [List.flatMap_cons, List.reverse_append, toList_reverse, ← List.singleton_append]
      refine starts_bind turn fun _ after _ ran => ?_
      have settled := ran.toUndisturbed.settled ready.settled
      have released : world.Undisturbed { after with holds := after.holds.erase (.effect id) } :=
        ran.toUndisturbed.trans (.of_same rfl rfl rfl rfl)
      have let_go : letGo id after =
          .ok () { after with holds := after.holds.erase (.effect id) } := by
        show EStateM.Result.ok () { after with holds := after.holds.erase (.effect id) }.collect = _
        rw [collect_eq_self (settled.holds _)]
      have freed : after.Undisturbed { after with holds := after.holds.erase (.effect id) } :=
        .of_same rfl rfl rfl rfl
      apply starts_after let_go freed rfl rfl
      rw [← released.scriptName?]
      apply inductionHypothesis (ready.later released) (released.graph.stack.trans idle)
      intro other member
      exact released.onlyReads (reads other (List.mem_cons_of_mem _ member))

/-- Code may start in a world that differs by records and holds only, and let go at its end. -/
theorem starts_ending {A : Type} {ids : List EffectId} {names : List String} {begun : World}
    {action : Live A} (holds : List Hold) (ready : world.Ready total)
    (begins : world.Undisturbed begun) (graph : begun.graph = world.graph)
    (started : begun.started = world.started) (starts : begun.Starts total ids names (action begun)) :
    world.Starts total ids names
      (ending action (fun after => { after with holds }.collect) begun) := by
  have ends : ∀ after, begun.Ran ids after → world.Ran ids { after with holds }.collect ∧
      ({ after with holds }.collect).started = after.started := by
    intro after ran
    have whole : world.Ran ids after := by
      have both := (Ran.of_same [] graph begins).trans ran
      rwa [List.nil_append] at both
    have settled := whole.toUndisturbed.settled ready.settled
    rw [collect_eq_self (settled.holds holds)]
    exact ⟨⟨whole.toUndisturbed.trans (.of_same rfl rfl rfl rfl), whole.others⟩, rfl⟩
  unfold ending
  cases outcome : action begun with
  | ok value after =>
      rw [outcome] at starts
      obtain ⟨ran, same⟩ := ends after starts.1
      have logged := starts.2
      rw [started] at logged
      exact ⟨ran, same.trans logged⟩
  | error stop after =>
      rw [outcome] at starts
      cases stop with
      | failed error => exact starts
      | panicked payload => exact ⟨starts.1, (ends after starts.2).1⟩
      | exhausted => exact ⟨starts.1, (ends after starts.2).1⟩

/-- A notification starts the scripts of the effects that it concerns. -/
theorem starts_trigger {depth : Nat} {target : TargetId} {name : String}
    (ready : world.Ready total) (idle : world.graph.stack = [])
    (reads : ∀ id ∈ world.graph.concerned target name,
      ∃ effect, world.graph.effect? id = some effect ∧ effect.onlyReads total = true) :
    world.Starts total (world.graph.concerned target name)
      ((world.graph.concerned target name).flatMap fun id => (world.scriptName? id).toList).reverse
      (trigger (runTo (depth + 1)) target name world) := by
  have graph := graph_notifying world target name
  have begins : world.Undisturbed (world.notifying target name) ∧
      (world.notifying target name).started = world.started := by
    unfold notifying
    dsimp only
    split
    · exact ⟨.of_same rfl rfl rfl rfl, rfl⟩
    · exact ⟨.of_same rfl rfl rfl rfl, rfl⟩
  rw [trigger_apply]
  apply starts_ending world.holds ready begins.1 graph begins.2
  rw [← begins.1.scriptName?]
  apply starts_runInTurn (ready.later begins.1)
  · rw [graph]
    exact idle
  · intro id member
    exact begins.1.onlyReads (reads id member)

/-- A write of a value starts the scripts of the effects that it concerns. -/
theorem starts_writeValue {depth : Nat} {state : TargetId} {key : String} (value : Value)
    (ready : world.Ready total) (idle : world.graph.stack = [])
    (reads : ∀ id ∈ world.concernedBy state key,
      ∃ effect, world.graph.effect? id = some effect ∧ effect.onlyReads total = true) :
    world.Starts total (world.concernedBy state key)
      ((world.concernedBy state key).flatMap fun id => (world.scriptName? id).toList).reverse
      (writeValue (runTo (depth + 1)) state key value world) := by
  unfold writeValue
  unfold concernedBy at reads ⊢
  split
  · exact ⟨.of_same _ rfl (.of_same rfl rfl rfl rfl), rfl⟩
  · rename_i free
    rw [if_neg free] at reads
    have put : world.Undisturbed (world.modifyStore state fun store =>
        { store with values := Dictionary.putSorted store.values key value }) := by
      refine ⟨.refl world.graph, rfl, ?_, rfl, rfl, rfl, rfl⟩
      intro id
      rw [store?_modifyStore]
      split
      · rw [Option.map_map]
        rfl
      · rfl
    have stored : putValue state key value world = .ok () (world.modifyStore state fun store =>
        { store with values := Dictionary.putSorted store.values key value }) := rfl
    apply starts_after stored put rfl rfl
    rw [← put.scriptName?]
    exact starts_trigger (ready.later put) idle fun id member => put.onlyReads (reads id member)

end Live

end LiveMarkup
