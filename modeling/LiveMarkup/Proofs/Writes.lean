import LiveMarkup.Proofs.Readers
import Mathlib.Data.List.Sort

/-
This file states the law of notifications, and what it means for a sequence of writes from outside.
-/

namespace LiveMarkup

/-- A write from outside stores a value, or lets a number grow. -/
inductive Write where
  | set (state key : String) (value : Value)
  | increase (state key : String) (step : Int)

namespace Write

def state : Write → String
  | .set state _ _ => state
  | .increase state _ _ => state

def key : Write → String
  | .set _ key _ => key
  | .increase _ key _ => key

def command : Write → Command
  | .set state key value => .state (.set state key value)
  | .increase state key step => .state (.increase state key step)

end Write

/-- The effects whose scripts started during a step, in their order. -/
def Step.started (step : Step) : List String :=
  step.happenings.filterMap fun happening =>
    match happening with
    | .effectStarted name => some name
    | _ => none

namespace Graph

/-- These effects have read a key of a target, or all its keys, in the order of their creation. -/
def readersOf (moves : List (Move Task)) (graph : Graph Task) (target : TargetId) (name : String) :
    List EffectId :=
  (List.range graph.effects.size).filter fun id =>
    !graph.isDisposed id && ((attributedReads id moves).contains ⟨target, .named name⟩ ||
      (attributedReads id moves).contains ⟨target, .any⟩)

/-- A write concerns the effects that have ever read what is written. -/
theorem concerned_eq_readersOf {moves : List (Move Task)} {graph : Graph Task}
    (path : Path {} moves graph) (target : TargetId) (name : String) :
    graph.concerned target name = readersOf moves graph target name := by
  have recorded := path.recorded
  have ordered : (readersOf moves graph target name).Pairwise (· < ·) :=
    List.Pairwise.filter _ List.pairwise_lt_range
  apply (graph.pairwise_concerned target name).eq_of_mem_iff ordered
  intro id
  have listed : ∀ dependency, id ∈ graph.subscribersOf dependency ↔
      id < graph.effects.size ∧ graph.isDisposed id = false ∧
        dependency ∈ attributedReads id moves := by
    intro dependency
    rw [recorded.agrees.listed]
    constructor
    · rintro ⟨effect, found, depends⟩
      have below := (Array.getElem?_eq_some_iff.mp found).1
      have lasting : effect.disposed = false := by
        cases gone : effect.disposed with
        | false => rfl
        | true =>
            rw [recorded.agrees.disposed id effect found gone] at depends
            cases depends
      have reads := recorded.reads id effect found lasting
      rw [reads, List.mem_eraseDups] at depends
      exact ⟨below, by simp [isDisposed, found, lasting], depends⟩
    · rintro ⟨below, lasts, read⟩
      have found : graph.effect? id = some graph.effects[id] := Array.getElem?_eq_getElem below
      have lasting : (graph.effects[id]).disposed = false := by
        simpa [isDisposed, found] using lasts
      refine ⟨graph.effects[id], found, ?_⟩
      rw [recorded.reads id _ found lasting, List.mem_eraseDups]
      exact read
  rw [mem_concerned, listed, listed]
  unfold readersOf
  rw [List.mem_filter, List.mem_range, Bool.and_eq_true, Bool.or_eq_true, Bool.not_eq_true',
    List.contains_iff_mem, List.contains_iff_mem]
  tauto

end Graph

namespace World

/-- The state that a name finds. -/
def stateFor? (world : World) (name : String) : Option TargetId :=
  (world.names.states.get? name).filter world.isAlive

/-- A write concerns nobody if its state is gone or its key is reserved. -/
def concernedByWrite (world : World) (write : Write) : List EffectId :=
  match world.stateFor? write.state with
  | some state => world.concernedBy state write.key
  | none => []

/-- Effects that may depend on the targets only read. -/
structure Tame (total : Bool) (targets : List TargetId) (world : World) : Prop where
  ready : world.Ready total
  idle : world.graph.stack = []
  path : ∃ moves, Graph.Path {} moves world.graph
  readers : ∀ id effect, world.graph.effect? id = some effect →
    effect.onlyReads total = true ∨ ∀ dependency ∈ effect.dependencies, dependency.target ∉ targets

namespace Undisturbed

variable {first second : World}

theorem stateFor? (undisturbed : first.Undisturbed second) (name : String) :
    second.stateFor? name = first.stateFor? name := by
  unfold World.stateFor?
  rw [undisturbed.states]
  congr 1
  funext id
  exact undisturbed.isAlive id

end Undisturbed

namespace Tame

variable {total : Bool} {targets : List TargetId} {world : World}

/-- A write to a target concerns only effects that only read. -/
theorem concerned (tame : world.Tame total targets) {state : TargetId} (key : String)
    (within : state ∈ targets) : ∀ id ∈ world.concernedBy state key,
      ∃ effect, world.graph.effect? id = some effect ∧ effect.onlyReads total = true := by
  intro id member
  obtain ⟨moves, path⟩ := tame.path
  have agrees := path.recorded.agrees
  have from_dependency : ∀ dependency : Dependency, dependency.target ∈ targets →
      id ∈ world.graph.subscribersOf dependency →
        ∃ effect, world.graph.effect? id = some effect ∧ effect.onlyReads total = true := by
    intro dependency written listed
    obtain ⟨effect, found, depends⟩ := (agrees.listed id dependency).mp listed
    rcases tame.readers id effect found with only | none
    · exact ⟨effect, found, only⟩
    · exact absurd written (none dependency depends)
  unfold concernedBy at member
  split at member
  · cases member
  · rcases (Graph.mem_concerned world.graph state key id).mp member with named | any
    · exact from_dependency _ within named
    · exact from_dependency _ within any

/-- The readers of a world stay readers, and no other effect has become one. -/
theorem later {after : World} {ids : List EffectId} (tame : world.Tame total targets)
    (ran : world.Ran ids after) (path : ∃ moves, Graph.Path {} moves after.graph)
    (reads : ∀ id ∈ ids, ∃ effect, world.graph.effect? id = some effect ∧
      effect.onlyReads total = true) : after.Tame total targets where
  ready := tame.ready.later ran.toUndisturbed
  idle := ran.graph.stack.trans tame.idle
  path := path
  readers id effect found := by
    by_cases member : id ∈ ids
    · obtain ⟨newer, known, only⟩ := ran.toUndisturbed.onlyReads (reads id member)
      rw [found] at known
      cases known
      exact Or.inl only
    · have still := ran.graph.effects id
      have depends := ran.others id member
      rw [found] at still depends
      obtain ⟨older, known, equal⟩ := Option.map_eq_some_iff.mp still.symm
      rw [known, Option.map_some, Option.map_some] at depends
      rcases tame.readers id older known with only | none
      · obtain ⟨newer, foundNewer, stays⟩ := ran.toUndisturbed.onlyReads ⟨older, known, only⟩
        rw [found] at foundNewer
        cases foundNewer
        exact Or.inl stays
      · rw [Option.some.inj depends]
        exact Or.inr none

end Tame

end World

namespace Live

open World

variable {total : Bool} {world : World}

theorem stateNamed_of_found {name : String} {state : TargetId}
    (found : world.stateFor? name = some state) :
    ∃ holds, stateNamed name world = .ok state { world with holds } := by
  unfold stateFor? at found
  unfold stateNamed
  rw [get_bind, found]
  by_cases held : world.holds.contains (.state state) = true
  · refine ⟨world.holds, ?_⟩
    show EStateM.Result.ok state (if world.holds.contains (.state state) then world else _) = _
    rw [if_pos held]
  · refine ⟨.state state :: world.holds, ?_⟩
    show EStateM.Result.ok state (if world.holds.contains (.state state) then world else _) = _
    rw [if_neg held]

theorem stateNamed_of_gone {name : String} (gone : world.stateFor? name = none) :
    stateNamed name world = .error (.failed (.type .stateGone)) world := by
  unfold stateFor? at gone
  unfold stateNamed
  rw [get_bind, gone]
  rfl

theorem peekValue_eq (state : TargetId) (key : String) (world : World) :
    ∃ found, peekValue state key world = .ok found world := by
  unfold peekValue valuesOf
  cases found : world.store? state with
  | none =>
      refine ⟨none, ?_⟩
      rw [bind_apply, get_bind, found]
      rfl
  | some store =>
      refine ⟨Assoc.get? store.values key, ?_⟩
      rw [bind_apply, get_bind, found]
      rfl

/-- A write starts the scripts of the effects that it concerns. -/
theorem starts_perform {depth : Nat} {write : Write} {state : TargetId}
    (ready : world.Ready total) (idle : world.graph.stack = [])
    (found : world.stateFor? write.state = some state)
    (reads : ∀ id ∈ world.concernedBy state write.key,
      ∃ effect, world.graph.effect? id = some effect ∧ effect.onlyReads total = true) :
    world.Starts total (world.concernedBy state write.key)
      ((world.concernedBy state write.key).flatMap fun id =>
        (world.scriptName? id).toList).reverse
      (perform (runTo (depth + 1)) [] write.command world) := by
  obtain ⟨holds, held⟩ := stateNamed_of_found found
  have holding : world.Undisturbed { world with holds } := .of_same rfl rfl rfl rfl
  have writes : ∀ value, ({ world with holds } : World).Starts total
      (world.concernedBy state write.key)
      ((world.concernedBy state write.key).flatMap fun id =>
        (world.scriptName? id).toList).reverse
      (writeValue (runTo (depth + 1)) state write.key value { world with holds }) :=
    fun value => starts_writeValue value (ready.later holding) idle reads
  cases write with
  | set name key value =>
      exact starts_after held holding rfl rfl (starts_then (writes value))
  | increase name key step =>
      obtain ⟨old, peeked⟩ := peekValue_eq state key { world with holds }
      apply starts_after held holding rfl rfl
      apply starts_then
      exact starts_after peeked (.refl _) rfl rfl (writes (increased step old))

/-- A command from outside lets go at its end of what it held. -/
theorem start_apply (command : Command) (world : World) :
    start command world =
      ending (perform (runTo (world.graph.effects.size + (spareDepth - 1) + 1)) [] command)
        (fun after => { after with holds := world.holds }.collect) world := rfl

/-- A write whose state is gone fails and changes nothing. -/
theorem start_of_gone {write : Write} (settled : world.Settled)
    (gone : world.stateFor? write.state = none) :
    start write.command world = .error (.failed (.type .stateGone)) world := by
  have missing := stateNamed_of_gone gone
  have fails : ∀ run, perform run [] write.command world =
      .error (.failed (.type .stateGone)) world := by
    intro run
    cases write with
    | set name key value => exact bind_of_error missing
    | increase name key step => exact bind_of_error missing
  rw [start_apply]
  unfold ending
  rw [fails]
  show EStateM.Result.error _ world.collect = _
  rw [collect_eq_self settled]

end Live

namespace World

open Live

variable {total : Bool} {targets : List TargetId} {world : World}

/-- A write stops calmly if all effects are total. If it does, the effects that it concerned have
started their scripts in order. -/
theorem step_write {write : Write} (tame : world.Tame total targets)
    (within : ∀ state, world.stateFor? write.state = some state → state ∈ targets) :
    (world.step write.command).2.Tame total targets ∧
      world.Undisturbed (world.step write.command).2 ∧
      (total = true → (world.step write.command).1.isCalm = true) ∧
      ((world.step write.command).1.isCalm = true →
        (world.step write.command).1.started =
          (world.concernedByWrite write).filterMap world.scriptName?) := by
  have forgets : world.Undisturbed world.forget := .of_same rfl rfl rfl rfl
  have forgotten : world.Ran [] world.forget := ⟨forgets, fun _ _ => rfl⟩
  have ready := tame.ready.later forgets
  have path : ∃ moves, Graph.Path {} moves (world.step write.command).2.graph := by
    obtain ⟨before, early⟩ := tame.path
    obtain ⟨after, late, -⟩ := (world.later_step write.command).moves
    exact ⟨after ++ before, early.append late⟩
  rw [step_eq] at path ⊢
  unfold concernedByWrite
  rw [← forgets.stateFor?]
  cases found : world.forget.stateFor? write.state with
  | none =>
      rw [start_of_gone ready.settled found] at path ⊢
      have kept := tame.later forgotten path fun _ impossible => by cases impossible
      exact ⟨kept, forgets, fun _ => rfl, fun _ => rfl⟩
  | some state =>
      have reads := tame.concerned write.key (within state (by rw [← forgets.stateFor?, found]))
      have starts : world.forget.Starts total (world.concernedBy state write.key)
          ((world.concernedBy state write.key).flatMap fun id =>
            (world.scriptName? id).toList).reverse (start write.command world.forget) := by
        rw [start_apply]
        apply starts_ending world.forget.holds ready (.refl _) rfl rfl
        exact starts_perform ready tame.idle found reads
      have ended : ∀ after, world.forget.Ran (world.concernedBy state write.key) after →
          (∃ moves, Graph.Path {} moves after.graph) →
            after.Tame total targets ∧ world.Undisturbed after := by
        intro after ran reached
        have whole := forgotten.trans ran
        exact ⟨tame.later whole reached reads, whole.toUndisturbed⟩
      cases outcome : start write.command world.forget with
      | ok value after =>
          rw [outcome] at path starts
          obtain ⟨kept, undisturbed⟩ := ended after starts.1 path
          refine ⟨kept, undisturbed, fun _ => rfl, fun _ => ?_⟩
          have logged : after.started = _ ++ [] := starts.2
          have latest : (Step.started ⟨.ok value, after.happenings.reverse, after.notices.reverse⟩) =
              after.started.reverse := List.filterMap_reverse
          rw [latest, logged, List.append_nil, List.reverse_reverse,
            List.filterMap_eq_flatMap_toList]
      | error stop after =>
          rw [outcome] at path starts
          cases stop with
          | failed error => exact starts.elim
          | panicked payload =>
              obtain ⟨kept, undisturbed⟩ := ended after starts.2 path
              refine ⟨kept, undisturbed, fun isTotal => ?_, fun calm => by cases calm⟩
              rw [starts.1] at isTotal
              cases isTotal
          | exhausted =>
              obtain ⟨kept, undisturbed⟩ := ended after starts.2 path
              refine ⟨kept, undisturbed, fun isTotal => ?_, fun calm => by cases calm⟩
              rw [starts.1] at isTotal
              cases isTotal

/-- A sequence of writes keeps the effects that only read. -/
theorem play_writes {writes : List Write} (tame : world.Tame total targets)
    (within : ∀ write ∈ writes, ∀ state, world.stateFor? write.state = some state →
      state ∈ targets) :
    (world.play (writes.map Write.command)).2.Tame total targets ∧
      world.Undisturbed (world.play (writes.map Write.command)).2 := by
  induction writes generalizing world with
  | nil => exact ⟨tame, .refl world⟩
  | cons write rest inductionHypothesis =>
      obtain ⟨next, undisturbed, -, -⟩ := step_write tame (within write List.mem_cons_self)
      rw [List.map_cons, play_cons]
      have others : ∀ other ∈ rest, ∀ state,
          (world.step write.command).2.stateFor? other.state = some state → state ∈ targets := by
        intro other member state found
        rw [undisturbed.stateFor?] at found
        exact within other (List.mem_cons_of_mem _ member) state found
      obtain ⟨last, later⟩ := inductionHypothesis next others
      exact ⟨last, undisturbed.trans later⟩

/-- A step leaves nothing in progress if nothing was before it. -/
theorem idle_step {world : World} (holds : world.holds = []) (stack : world.graph.stack = [])
    (command : Command) : (world.step command).2.holds = [] ∧
      (world.step command).2.graph.stack = [] ∧ (world.step command).2.Settled := by
  have frames : (world.step command).2.graph.stack = [] :=
    (world.later_step command).stack.trans stack
  have collected : (world.step command).2.holds = [] ∧ (world.step command).2.IsCollected := by
    have ends : ∀ after : World, ({ after with holds := world.forget.holds }.collect).holds = [] :=
      fun after => (wanes_collect { after with holds := world.forget.holds }).holds.trans holds
    rw [step_eq, start_apply]
    unfold ending
    split
    · rename_i ended
      split at ended
      · cases ended
        exact ⟨ends _, isCollected_collect _⟩
      · cases ended
    · rename_i ended
      split at ended
      · cases ended
      · cases ended
        exact ⟨ends _, isCollected_collect _⟩
  exact ⟨collected.1, frames, settled_of_isCollected collected.2 collected.1 frames⟩

/-- Nothing is in progress after a scenario, and all that lives is kept. -/
theorem idle_play (commands : List Command) {world : World} (holds : world.holds = [])
    (stack : world.graph.stack = []) (settled : world.Settled) :
    (world.play commands).2.graph.stack = [] ∧ (world.play commands).2.Settled := by
  induction commands generalizing world with
  | nil => exact ⟨stack, settled⟩
  | cons command rest inductionHypothesis =>
      obtain ⟨noHolds, noFrames, still⟩ := idle_step holds stack command
      exact inductionHypothesis noHolds noFrames still

theorem settled_empty : empty.Settled where
  hosts id alive := by simp [empty, host?] at alive
  states id alive := by simp [empty, isAlive, store?] at alive

/-- These effects have read what a write stores. A reserved key is not stored. -/
def readersOfWrite (moves : List (Graph.Move Task)) (world : World) (write : Write) :
    List EffectId :=
  match world.stateFor? write.state with
  | some state =>
      if write.key = reservedKey then []
      else Graph.readersOf moves world.graph state write.key
  | none => []

theorem concernedByWrite_eq {moves : List (Graph.Move Task)} (path : Graph.Path {} moves world.graph)
    (write : Write) : world.concernedByWrite write = readersOfWrite moves world write := by
  unfold concernedByWrite readersOfWrite concernedBy
  cases world.stateFor? write.state with
  | none => rfl
  | some state =>
      dsimp only
      rw [Graph.concerned_eq_readersOf path]

/-- An effect that depends on a state that is written only reads. -/
def ReadersOnlyRead (total : Bool) (writes : List Write) (world : World) : Prop :=
  ∀ id effect, world.graph.effect? id = some effect → effect.onlyReads total = true ∨
    ∀ dependency ∈ effect.dependencies, ∀ write ∈ writes,
      world.stateFor? write.state ≠ some dependency.target

/-- A scenario leaves the world tame for later writes if the readers only read. -/
theorem tame_play {commands : List Command} {writes : List Write}
    (readers : (empty.play commands).2.ReadersOnlyRead total writes)
    (methods : total = false → (empty.play commands).2.MethodsRead) :
    (empty.play commands).2.Tame total
      (writes.filterMap fun write => (empty.play commands).2.stateFor? write.state) where
  ready := ⟨(idle_play commands rfl rfl settled_empty).2, methods⟩
  idle := (idle_play commands rfl rfl settled_empty).1
  path := by
    obtain ⟨moves, path, -⟩ := (empty.later_play commands).moves
    exact ⟨moves, path⟩
  readers id effect found := by
    apply (readers id effect found).imp_right
    intro none dependency member written
    obtain ⟨write, listed, same⟩ := List.mem_filterMap.mp written
    exact none dependency member write listed same

end World

/-- A notification that completes has attempted exactly the subscribers that it found when it started,
each once and in the order of their creation. If the effects that depend on some states only read,
then each write to one of them starts the scripts of all effects that have read what is written, once
each and in the order of their creation. -/
theorem notifications_attempt_subscribers :
    (∀ depth target name (world final : World) (moves : List (Graph.Move Task)),
      Graph.Path {} moves world.graph →
      Live.trigger (Live.runTo depth) target name world = .ok () final →
      ∃ turns ended,
        Live.Turns (Live.runTo depth) (world.notifying target name) turns ended ∧
        final = { ended with holds := world.holds }.collect ∧
        (turns.map Prod.fst).Pairwise (· < ·) ∧
        ∀ id, id ∈ turns.map Prod.fst ↔
          id ∈ world.graph.subscribersOf ⟨target, .named name⟩ ∨
            id ∈ world.graph.subscribersOf ⟨target, .any⟩) ∧
    ∀ total commands (writes : List Write),
      (World.empty.play commands).2.ReadersOnlyRead total writes →
      (total = false → (World.empty.play commands).2.MethodsRead) →
      ∀ before write after, writes = before ++ write :: after →
      ∀ current, current = ((World.empty.play commands).2.play (before.map Write.command)).2 →
        (total = true → (current.step write.command).1.isCalm = true) ∧
        ((current.step write.command).1.isCalm = true →
          ∀ moves, Graph.Path {} moves current.graph →
            (current.step write.command).1.started =
              (World.readersOfWrite moves current write).filterMap current.scriptName?) := by
  constructor
  · intro depth target name world final moves path returned
    obtain ⟨turns, ended, chain, listed, same⟩ := Live.turns_of_trigger path returned
    refine ⟨turns, ended, chain, same, ?_, ?_⟩
    · rw [listed]
      exact world.graph.pairwise_concerned target name
    · intro id
      rw [listed]
      exact Graph.mem_concerned world.graph target name id
  · intro total commands writes readers methods before write after split current reached
    have tame := World.tame_play readers methods
    have within : ∀ other ∈ writes, ∀ state,
        (World.empty.play commands).2.stateFor? other.state = some state →
          state ∈ writes.filterMap fun other =>
            (World.empty.play commands).2.stateFor? other.state :=
      fun other member state found => List.mem_filterMap.mpr ⟨other, member, found⟩
    have earlier : ∀ other ∈ before, other ∈ writes := fun other member => by simp [split, member]
    obtain ⟨now, undisturbed⟩ := World.play_writes tame
      fun other member => within other (earlier other member)
    rw [← reached] at now undisturbed
    have target : ∀ state, current.stateFor? write.state = some state →
        state ∈ writes.filterMap fun other =>
          (World.empty.play commands).2.stateFor? other.state := by
      intro state found
      rw [undisturbed.stateFor?] at found
      exact within write (by simp [split]) state found
    obtain ⟨-, -, calm, log⟩ := World.step_write now target
    refine ⟨calm, ?_⟩
    intro ends moves path
    rw [← World.concernedByWrite_eq path]
    exact log ends

/-- The first effect reads one key, the second one all keys, and the third one another key. -/
def threeReaders : List Command :=
  [.state (.createFrom "s" (.object [("count", .integer 1)])),
    .createEffect "first" [.state (.get "s" "count")] {},
    .createEffect "second" [.state (.trackAll "s")] {},
    .createEffect "third" [.state (.get "s" "other")] {}]

/-- A write to the key starts the first two effects, and a notification attempts them. -/
theorem attempts_of_threeReaders :
    (∃ turns ended, Live.Turns (Live.runTo 2)
        ((World.empty.play threeReaders).2.notifying 0 "count") turns ended ∧
      0 ∈ turns.map Prod.fst ∧ 2 ∉ turns.map Prod.fst) ∧
    ((World.empty.play threeReaders).2.step (.state (.set "s" "count" (.integer 2)))).1.started =
      ["first", "second"] := by
  obtain ⟨moves, path, -⟩ := (World.empty.later_play threeReaders).moves
  constructor
  · have returns : (match Live.trigger (Live.runTo 2) 0 "count" (World.empty.play threeReaders).2 with
        | .ok _ _ => true
        | .error _ _ => false) = true := by decide +kernel
    cases outcome : Live.trigger (Live.runTo 2) 0 "count" (World.empty.play threeReaders).2 with
    | error stop after =>
        rw [outcome] at returns
        cases returns
    | ok value final =>
        obtain ⟨turns, ended, chain, -, -, listed⟩ :=
          notifications_attempt_subscribers.1 2 0 "count" _ final moves path outcome
        refine ⟨turns, ended, chain, (listed 0).mpr ?_, fun member => ?_⟩
        · decide +kernel
        · have subscribed := (listed 2).mp member
          revert subscribed
          decide +kernel
  · have only : ∀ effect ∈ (World.empty.play threeReaders).2.graph.effects,
        effect.onlyReads true = true := by decide +kernel
    have nothing : ∀ world : World, world = (world.play (([] : List Write).map Write.command)).2 :=
      fun _ => rfl
    have law := notifications_attempt_subscribers.2 true threeReaders
      [.set "s" "count" (.integer 2)]
      (fun id effect found => Or.inl (only effect (Array.mem_of_getElem? found)))
      (fun impossible => by cases impossible) [] _ [] rfl _ (nothing _)
    have started := law.2 (law.1 rfl) moves path
    rw [← World.concernedByWrite_eq path] at started
    refine started.trans ?_
    decide +kernel

end LiveMarkup
