import Mathlib.Data.List.Perm.Subperm
import LiveMarkup.Proofs.Incremental
import LiveMarkup.Proofs.Balance
import LiveMarkup.Proofs.Unfailing

/-
This file shows that notifications come to an end even if effects write what other effects read, or what
they read themselves. Nothing but the stack prevents an effect from being entered again, so each run of an
effect inside another one leaves fewer effects that can still be entered.
-/

namespace LiveMarkup

/-! Scripts that neither make effects nor call methods. -/

def StateCommand.isModest : StateCommand → Bool
  | .set .. => true
  | .preset .. => true
  | .increase .. => true
  | .setEvaluated _ _ source => Expr.isCallFreeSource source
  | command => command.onlyReads true

def EffectCommand.isModest : EffectCommand → Bool
  | .run _ => true
  | .dispose _ => true
  | .disposeActive => true
  | .trigger .. => true
  | .release _ => true
  | command => command.onlyReads

mutual

/-- A modest command reads, writes, notifies, runs and disposes, but it makes no effects. -/
def Command.isModest : Command → Bool
  | .branch _ _ yes no => Script.isModest yes && Script.isModest no
  | .cycle bodies => Script.areModest bodies
  | .once _ body => Script.isModest body
  | .untracked body => Script.isModest body
  | .state command => command.isModest
  | .effect command => command.isModest
  | command => command.onlyReads true

def Script.isModest : List Command → Bool
  | [] => true
  | command :: rest => Command.isModest command && Script.isModest rest

def Script.areModest : List (List Command) → Bool
  | [] => true
  | body :: rest => Script.isModest body && Script.areModest rest

end

/-- Only the rendering of a host makes effects whatever its code is. -/
def Task.isModest : Task → Bool
  | .script _ body => Script.isModest body
  | .interpolation _ _ source => Interpolation.isCallFree source
  | .textBinding _ _ source => Expr.isCallFreeSource source
  | .valueBinding _ _ source => Expr.isCallFreeSource source
  | .render _ => false

/-- A notification is set off in one of these ways. -/
inductive Impulse where
  | set (state : TargetId) (key : String) (value : Value)
  | update (state : TargetId) (key : String) (change : Option Value → Value)
  | trigger (target : TargetId) (name : String)
  | run (effect : EffectId)

def Impulse.perform (run : Runner) : Impulse → Live Unit
  | .set state key value => Live.writeValue run state key value
  | .update state key change => Live.updateValue run state key change
  | .trigger target name => Live.trigger run target name
  | .run effect => Live.runEffect run effect

namespace Graph

/-- So many effects run inside one another. -/
def nesting (graph : Graph Task) : Nat := (graph.stack.filterMap id).length

end Graph

namespace World

def Modest (world : World) : Prop := ∀ id task, world.HasTask id task → task.isModest = true

/-- These effects have no frame on the stack, so that they may be entered. -/
def idle (world : World) : List EffectId :=
  (List.range world.graph.effects.size).filter fun id => !world.graph.isRunning id

/-- The code has made no effects. -/
structure Roams (before after : World) : Prop where
  later : before.Later after
  size : after.graph.effects.size = before.graph.effects.size

variable {first second third world before after : World} {id : EffectId}

theorem Roams.refl (world : World) : world.Roams world := ⟨.refl world, rfl⟩

theorem Roams.trans (early : first.Roams second) (late : second.Roams third) : first.Roams third :=
  ⟨early.later.trans late.later, late.size.trans early.size⟩

/-- Effects keep their tasks, and there are no new ones. -/
theorem Roams.modest (roams : before.Roams after) (modest : before.Modest) : after.Modest := by
  intro id task has
  have known : id < before.graph.effects.size := by
    obtain ⟨effect, found, -⟩ := has
    have below := (Array.getElem?_eq_some_iff.mp found).1
    rwa [roams.size] at below
  have found : before.graph.effect? id = some before.graph.effects[id] := Array.getElem?_eq_getElem known
  obtain ⟨effect, looked, same⟩ := has
  obtain ⟨newer, here, kept⟩ := roams.later.hasTask ⟨_, found, rfl⟩
  rw [looked] at here
  cases here
  exact modest id task ⟨_, found, kept.symm.trans same⟩

theorem modest_of_all (all : (world.graph.effects.all fun effect => effect.task.isModest) = true) :
    world.Modest := by
  rintro id task ⟨effect, found, rfl⟩
  obtain ⟨below, same⟩ := Array.getElem?_eq_some_iff.mp found
  exact same ▸ Array.all_eq_true.mp all id below

theorem Roams.idle_eq (roams : before.Roams after) : after.idle = before.idle := by
  unfold idle Graph.isRunning
  rw [roams.size, roams.later.stack]

theorem modest_entered (modest : world.Modest) (frame : Option EffectId) :
    (world.entered frame).Modest := by
  cases frame with
  | none => exact modest
  | some entered =>
      rintro id task ⟨effect, found, same⟩
      have counted : (world.graph.countRun entered).effect? id = some effect := found
      rw [Graph.effect?_countRun] at counted
      split at counted
      · obtain ⟨known, looked, rfl⟩ := Option.map_eq_some_iff.mp counted
        exact modest id task ⟨known, looked, same⟩
      · exact modest id task ⟨effect, counted, same⟩

/-- An effect that is entered is idle no more. -/
theorem idle_entered (allowed : world.graph.Allows (.entered (some id))) :
    (world.entered (some id)).idle.length + 1 = world.idle.length := by
  obtain ⟨effect, found, -, free⟩ := allowed
  have known := (Array.getElem?_eq_some_iff.mp found).1
  have member : id ∈ world.idle :=
    List.mem_filter.mpr ⟨List.mem_range.mpr known, by rw [free]; rfl⟩
  have size : (world.entered (some id)).graph.effects.size = world.graph.effects.size :=
    Array.size_modify ..
  have fewer : (world.entered (some id)).idle = world.idle.erase id := by
    have distinct : world.idle.Nodup := List.nodup_range.filter _
    rw [distinct.erase_eq_filter]
    unfold idle
    rw [size, List.filter_filter]
    refine List.filter_congr fun other _ => ?_
    have frames : (world.entered (some id)).graph.stack = some id :: world.graph.stack := rfl
    simp [Graph.isRunning, frames, bne, beq_eq_decide]
  rw [fewer, List.length_erase_of_mem member]
  exact Nat.sub_add_cancel (List.length_pos_of_mem member)

/-- Different effects run inside one another, so that there are no more runs than effects. -/
theorem Reachable.nesting_le (reachable : world.Reachable) :
    world.graph.nesting ≤ world.graph.effects.size := by
  have known : ∀ effect ∈ world.graph.stack.filterMap (fun frame => frame),
      effect ∈ List.range world.graph.effects.size := by
    intro effect member
    obtain ⟨frame, listed, same⟩ := List.mem_filterMap.mp member
    exact List.mem_range.mpr (reachable.lt_of_mem_stack (same ▸ listed))
  have fewer := (List.Nodup.subperm reachable.unrepeated known).length_le
  rwa [List.length_range] at fewer

/-- Wherever code goes that makes no effects, runs do not nest deeper than there were effects at first. -/
theorem Roams.nesting_le (roams : before.Roams after) (reachable : before.Reachable)
    {earlier newer : List (Graph.Move Task)} {graph : Graph Task}
    (early : Graph.Path before.graph earlier graph) (late : Graph.Path graph newer after.graph) :
    graph.nesting ≤ before.graph.effects.size := by
  obtain ⟨moves, path⟩ := reachable
  have reached : ({ before with graph } : World).Reachable := ⟨_, path.append early⟩
  have most := late.effects_le
  rw [roams.size] at most
  exact Nat.le_trans reached.nesting_le most

end World

/-- Code that is given up has found more idle effects than this. -/
def Conduct.nesting (depth : Nat) : Conduct where
  calm before after := before.Modest → before.Roams after
  broken before _ := before.Modest → depth ≤ before.idle.length
  refl world _ := .refl world
  trans early late modest :=
    have roams := early modest
    roams.trans (late (roams.modest modest))
  carry early broken modest :=
    have roams := early modest
    roams.idle_eq ▸ broken (roams.modest modest)
  settle broken _ := broken
  fits activity _ := ∃ task : Task, activity = .task task ∧ task.isModest = true

namespace Nesting

open Live

variable {depth : Nat} {run : Runner} {world : World} {A : Type}

theorem calm_of_later {before after : World} (later : before.Later after)
    (size : after.graph.effects.size = before.graph.effects.size) :
    (Conduct.nesting depth).calm before after := fun _ => ⟨later, size⟩

theorem calm_collect (world : World) : (Conduct.nesting depth).calm world world.collect :=
  calm_of_later (World.later_collect world) (World.sweeps_collect world).effects

theorem calm_closing (world : World) (holds : List Hold) :
    (Conduct.nesting depth).calm world { world with holds }.collect :=
  (Conduct.nesting depth).trans (calm_of_later (World.later_holds world holds) rfl) (calm_collect _)

theorem note (notice : Notice) : Follows (Conduct.nesting depth) (Live.note notice) world :=
  calm_of_later (World.later_note world notice) rfl

theorem attest (deed : Deed) : Follows (Conduct.nesting depth) (Live.attest deed) world :=
  calm_of_later (.attest world deed) rfl

theorem modifyForest {change : Forest Handler → Forest Handler}
    (grows : world.forest.size ≤ (change world.forest).size) :
    Follows (Conduct.nesting depth) (Live.modifyForest change) world :=
  calm_of_later (.of_forest world _ grows) rfl

theorem hold (held : Hold) : Follows (Conduct.nesting depth) (Live.hold held) world := by
  refine Follows.modifies ?_
  split
  · exact (Conduct.nesting depth).refl world
  · exact calm_of_later (World.later_holds world _) rfl

theorem track (target : TargetId) (key : Key) :
    Follows (Conduct.nesting depth) (Live.track target key) world :=
  calm_of_later (Lasting.track target key) (Graph.size_track _ _)

/-- A frame without effect leaves all idle effects idle. -/
theorem untracked {action : Live A}
    (follows : Follows (Conduct.nesting depth) action { world with graph := world.graph.push none }) :
    Follows (Conduct.nesting depth) (Live.untracked action) world := by
  have allowed : world.graph.Allows (.entered none) := trivial
  refine Follows.inFrame follows (fun after calm modest => ?_) fun after broken modest => ?_
  · have roams := calm modest
    have left : world.Roams { after with graph := after.graph.pop } :=
      ⟨roams.later.leave allowed, roams.size⟩
    have collected : (Conduct.nesting depth).calm _ _ := calm_collect { after with graph := after.graph.pop }
    exact left.trans (collected (left.modest modest))
  · have idle : (world.entered none).idle = world.idle := by
      simp [World.idle, Graph.isRunning, World.entered, Graph.moved, Graph.push]
    exact idle ▸ broken modest

theorem plain : Plain (Conduct.nesting depth) where
  finishes name outcome world := calm_of_later (Lasting.plain.finishes name outcome world) rfl
  notes notice _ := note notice
  meets tag world := calm_of_later (Lasting.plain.meets tag world) rfl
  parses source world := calm_of_later (Lasting.plain.parses source world) rfl
  holds held _ := hold held
  operates _ world follows := follows.ending fun after => calm_closing after world.holds
  letsGo _ world := Follows.modifies (calm_closing world _)
  untracks _ _ follows := untracked follows
  tracks target key _ _ := track target key
  tracksByHand target key := .trackByHand (fun _ => attest _) fun _ => track target key
  nodes nodes world := calm_of_later (Lasting.plain.nodes nodes world) rfl

/-- Nothing is said of code in other worlds. -/
theorem of_modest {action : Live A}
    (follows : world.Modest → Follows (Conduct.nesting depth) action world) :
    Follows (Conduct.nesting depth) action world := by
  by_cases modest : world.Modest
  · exact follows modest
  · unfold Follows
    cases action world with
    | ok value after => exact fun impossible => absurd impossible modest
    | error stop after => cases stop <;> exact fun impossible => absurd impossible modest

/-- An effect that runs is idle before and not while it runs, so that the code in it finds one idle effect
less. -/
theorem runEffect (keeps : run.Keeps (Conduct.nesting depth)) (id : EffectId) (world : World) :
    Follows (Conduct.nesting (depth + 1)) (Live.runEffect run id) world := by
  refine of_modest fun modest => Follows.asks ?_
  split
  · exact Follows.pure _
  · rename_i effect found
    split
    · exact Follows.pure _
    · rename_i lasting
      split
      · exact note _
      · rename_i free
        have allowed : world.graph.Allows (.entered (some id)) :=
          ⟨effect, found, Bool.eq_false_iff.mpr lasting, Bool.eq_false_iff.mpr free⟩
        have fewer := World.idle_entered allowed
        have entered := World.modest_entered modest (some id)
        have runs : Follows (Conduct.nesting depth) (run (.task effect.task))
            (world.entered (some id)) :=
          keeps _ _ ⟨effect.task, rfl, modest id _ ⟨effect, found, rfl⟩⟩
        have ends : (Conduct.nesting depth).Ends (world.entered (some id))
            ((do modifyGraph (·.countRun id); discard (run (.task effect.task)) : Live Unit)
              { world with graph := world.graph.push (some id) }) := runs.discard
        refine Live.ends_ending ends (fun after calm _ => ?_) fun after broken _ => ?_
        · have roams := calm entered
          have size : after.graph.effects.size = world.graph.effects.size :=
            roams.size.trans (Array.size_modify ..)
          have left : world.Roams { after with graph := after.graph.pop } :=
            ⟨roams.later.leave allowed, size⟩
          have collected : (Conduct.nesting depth).calm _ _ :=
            calm_collect { after with graph := after.graph.pop }
          exact left.trans (collected (left.modest modest))
        · exact fewer ▸ Nat.succ_le_succ (broken entered)

/-! Bindings. -/

theorem showAt (node : NodeId) (text : String) (world : World) :
    Follows (Conduct.nesting depth) (Live.showAt node text) world :=
  Follows.asks ((attest _).bind fun _ after _ =>
    modifyForest (Forest.size_setTextContent after.forest node text))

theorem showValue (state : TargetId) (node : NodeId) (source : String)
    (free : Expr.isCallFreeSource source = true) (world : World) :
    Follows (Conduct.nesting depth) (Live.showValue run state node source) world :=
  plain.whileAlive state fun after ready =>
    (plain.evaluatesText state (fun impossible : False => impossible.elim) source ready
      (Or.inl free)).bind fun shown reached _ => Follows.asks (by
        split
        · exact modifyForest (Nat.le_of_eq (Forest.size_setValue reached.forest node shown).symm)
        · exact Follows.pure _)

/-! What modest code does. The effects in its reach may be any that follow the conduct. -/

section

variable (runs : ∀ id world, Follows (Conduct.nesting depth) (Live.runEffect run id) world)
include runs

theorem trigger (target : TargetId) (name : String) (world : World) :
    Follows (Conduct.nesting depth) (Live.trigger run target name) world :=
  plain.trigger (fun _ after => calm_of_later (World.later_holds after _) rfl) runs target name world

theorem writeValue (state : TargetId) (key : String) (value : Value) (world : World) :
    Follows (Conduct.nesting depth) (Live.writeValue run state key value) world :=
  plain.writeValue (calm_of_later (Lasting.putValue state key value) rfl) (trigger runs state key)

theorem updateValue (state : TargetId) (key : String) (change : Option Value → Value) (world : World) :
    Follows (Conduct.nesting depth) (Live.updateValue run state key change) world :=
  (Plain.peekValue state key).bind fun _ after _ => writeValue runs state key _ after

theorem performState (command : StateCommand) (modest : command.isModest = true) (world : World) :
    Follows (Conduct.nesting depth) (Live.performState run command) world := by
  cases command with
  | set state key value =>
      exact (plain.stateNamed state).bind fun id after _ =>
        (writeValue runs id key value after).bind fun _ _ _ => Follows.pure _
  | preset state key value =>
      exact (plain.stateNamed state).bind fun id after _ =>
        (plain.presetValue (fun _ => attest _)
          (fun _ => calm_of_later (Lasting.putValue id key value) rfl) after).bind fun _ _ _ =>
            Follows.pure _
  | increase state key step =>
      exact (plain.stateNamed state).bind fun id after _ =>
        (updateValue runs id key _ after).bind fun _ _ _ => Follows.pure _
  | setEvaluated state key source =>
      exact plain.onState state fun id after ready =>
        (plain.evaluatesStrictly id (fun impossible : False => impossible.elim) source
          ready (Or.inl modest)).bind fun value reached _ =>
            (writeValue runs id key value reached).bind fun _ _ _ => Follows.pure _
  | _ => exact plain.readsState (fun impossible : true = false => by cases impossible) _ modest

theorem performEffect (command : EffectCommand) (modest : command.isModest = true) (world : World) :
    Follows (Conduct.nesting depth) (Live.performEffect run command) world := by
  have disposes : ∀ id world, Follows (Conduct.nesting depth) (Live.disposeEffect id) world :=
    fun id world => Follows.modifies ((Conduct.nesting depth).trans
      (calm_of_later (World.later_disposeEffect world id) (World.sweeps_disposeEffect world id).effects)
      (calm_collect _))
  cases command with
  | run effect =>
      exact (plain.effectNamed effect).bind fun id after _ =>
        (runs id after).bind fun _ _ _ => Follows.pure _
  | dispose effect =>
      exact (plain.effectNamed effect).bind fun id after _ =>
        (disposes id after).bind fun _ _ _ => Follows.pure _
  | disposeActive =>
      refine Follows.asks ?_
      split
      · exact (disposes _ world).bind fun _ _ _ => Follows.pure _
      · exact Follows.pure _
  | trigger target key =>
      exact (Plain.targetNamed target).bind fun id after _ =>
        (trigger runs id key after).bind fun _ _ _ => Follows.pure _
  | release target =>
      refine (Plain.targetNamed target).bind fun id after _ => ?_
      have releases : Follows (Conduct.nesting depth) (Live.releaseTarget id) after :=
        calm_of_later (Lasting.releaseTarget id after) (Graph.size_release _ _)
      exact releases.bind fun _ _ _ => Follows.pure _
  | _ => exact plain.readsEffect _ modest

mutual

theorem perform (arguments : List Value) (world : World) : ∀ command : Command,
    command.isModest = true → Follows (Conduct.nesting depth) (Live.perform run arguments command) world
  | .branch state key yes no, modest => by
      obtain ⟨modestYes, modestNo⟩ := (Bool.and_eq_true _ _).mp modest
      refine (plain.isTruthyAt state key).bind fun truth after _ => ?_
      split
      · exact performAll arguments .null after yes modestYes
      · exact performAll arguments .null after no modestNo
  | .cycle bodies, modest => Follows.asks (performOne arguments world _ bodies modest)
  | .once tag body, modest => Follows.asks (by
      split
      · exact Follows.pure _
      · exact (Follows.modifies (plain.meets tag world)).bind fun _ after _ =>
          performAll arguments .null after body modest)
  | .untracked body, modest => untracked (performAll arguments .null _ body modest)
  | .state command, modest => performState runs command modest world
  | .effect command, modest => performEffect runs command modest world
  | .log _, modest | .value _, modest | .argumentAt _, modest | .arguments, modest | .sum, modest
  | .fail _, modest | .panic _, modest | .tell .., modest | .tellValue .., modest | .method .., modest
  | .createEffect .., modest | .node _, modest | .listen .., modest | .host _, modest
  | .onHook .., modest | .createHost .., modest | .inspect .., modest =>
      plain.reads (fun impossible : true = false => by cases impossible)
        (fun impossible => by cases impossible) arguments world _ modest

theorem performAll (arguments : List Value) (last : Value) (world : World) : ∀ script : Script,
    Script.isModest script = true →
      Follows (Conduct.nesting depth) (Live.performAll run arguments last script) world
  | [], _ => Follows.pure _
  | command :: rest, modest => by
      obtain ⟨modestHere, modestRest⟩ := (Bool.and_eq_true _ _).mp modest
      exact (plain.recorded _ _ (perform arguments world command modestHere)).bind
        fun value after _ => performAll arguments value after rest modestRest

theorem performOne (arguments : List Value) (world : World) (place : Nat) :
    ∀ scripts : List Script, Script.areModest scripts = true →
      Follows (Conduct.nesting depth) (Live.performOne run arguments place scripts) world
  | [], _ => by
      cases place <;> exact Follows.pure _
  | body :: rest, modest => by
      obtain ⟨modestHere, modestRest⟩ := (Bool.and_eq_true _ _).mp modest
      cases place with
      | zero => exact performAll arguments .null world body modestHere
      | succ place => exact performOne arguments world place rest modestRest

end

theorem performTask (task : Task) (modest : task.isModest = true) (world : World) :
    Follows (Conduct.nesting depth) (Live.performTask run task) world := by
  cases task with
  | script name body =>
      have records : Follows (Conduct.nesting depth) (Live.record (.effectStarted name)) world :=
        calm_of_later (.of_same rfl rfl rfl rfl (Nat.le_refl _) (List.suffix_refl _)) rfl
      exact records.bind fun _ after _ =>
        Plain.swallowing (performAll runs [] .null after body modest)
  | interpolation state node source =>
      have shows : Follows (Conduct.nesting depth) (showInterpolation run state node source) world :=
        plain.whileAlive state fun after ready =>
          (plain.interpolates state (fun impossible : False => impossible.elim) source ready
            (Or.inl modest)).bind fun text reached _ => showAt node text reached
      exact shows.bind fun _ _ _ => Follows.pure _
  | textBinding state node source =>
      have shows : Follows (Conduct.nesting depth) (showText run state node source) world :=
        plain.whileAlive state fun after ready =>
          (plain.evaluatesText state (fun impossible : False => impossible.elim) source ready
            (Or.inl modest)).bind fun text reached _ => showAt node text reached
      exact shows.bind fun _ _ _ => Follows.pure _
  | valueBinding state node source =>
      exact (showValue state node source modest world).bind fun _ _ _ => Follows.pure _
  | render host => cases modest

end

/-- Modest code that may nest to a depth is given up only if there are more idle effects. -/
theorem keeps_runTo (depth : Nat) : (runTo depth).Keeps (Conduct.nesting depth) := by
  induction depth with
  | zero =>
      intro activity world _
      exact Follows.stops (fun _ => Nat.zero_le _) _
  | succ depth inductionHypothesis =>
      rintro _ world ⟨task, rfl, modest⟩
      exact performTask (runEffect inductionHypothesis) task modest world

theorem perform_impulse (runs : ∀ id world, Follows (Conduct.nesting depth) (Live.runEffect run id) world)
    (impulse : Impulse) (world : World) :
    Follows (Conduct.nesting depth) (impulse.perform run) world := by
  cases impulse with
  | set state key value => exact writeValue runs state key value world
  | update state key change => exact updateValue runs state key change world
  | trigger target name => exact trigger runs target name world
  | run effect => exact runs effect world

theorem unfailing_impulse (depth : Nat) (impulse : Impulse) :
    Unfailing (impulse.perform (runTo depth)) := by
  have writes : ∀ state key value, Unfailing (Live.writeValue (runTo depth) state key value) := by
    intro state key value
    unfold Live.writeValue
    split
    · exact .note _
    · exact (Unfailing.modifies _).bind fun _ => unfailing_trigger depth state key
  cases impulse with
  | set state key value => exact writes state key value
  | update state key change =>
      have values : Unfailing (valuesOf state) := Unfailing.asks fun world => by
        split <;> exact .pure _
      have peeks : Unfailing (peekValue state key) := values.bind fun _ => .pure _
      exact peeks.bind fun old => writes state key (change old)
  | trigger target name => exact unfailing_trigger depth target name
  | run effect => exact unfailing_runEffect depth effect

end Nesting

open Live in
/-- Each notification comes to an end without failure, although effects may write what any effect reads.
Code has to nest no deeper than there are idle effects, which is never more than commands from outside are
given, and nowhere on the way do more effects run inside one another than there were at first. -/
theorem notifications_end {world : World} (reachable : world.Reachable) (modest : world.Modest)
    (impulse : Impulse) :
    world.idle.length ≤ depthOf world ∧
    ∀ depth, world.idle.length ≤ depth →
      ∃ after, impulse.perform (runTo depth) world = .ok () after ∧
        after.Modest ∧
        after.graph.stack = world.graph.stack ∧
        after.graph.effects.size = world.graph.effects.size ∧
        ∃ moves, Graph.Path world.graph moves after.graph ∧
          ∀ earlier newer graph, moves = newer ++ earlier →
            Graph.Path world.graph earlier graph → Graph.Path graph newer after.graph →
              graph.nesting ≤ world.graph.effects.size := by
  have fewer : world.idle.length ≤ world.graph.effects.size := by
    have most := List.length_filter_le (fun id => !world.graph.isRunning id)
      (List.range world.graph.effects.size)
    rwa [List.length_range] at most
  refine ⟨Nat.le_add_right_of_le fewer, fun depth enough => ?_⟩
  have follows := Nesting.perform_impulse
    (Nesting.runEffect (Nesting.keeps_runTo depth)) impulse world
  unfold Follows at follows
  have inside : ¬ depth + 1 ≤ world.idle.length := Nat.not_le.mpr (Nat.lt_succ_of_le enough)
  cases outcome : impulse.perform (runTo depth) world with
  | ok value after =>
      rw [outcome] at follows
      have roams := follows modest
      obtain ⟨moves, path, -⟩ := roams.later.moves
      exact ⟨after, rfl, roams.modest modest, roams.later.stack, roams.size, moves, path,
        fun _ _ _ _ early late => roams.nesting_le reachable early late⟩
  | error stop after =>
      rw [outcome] at follows
      cases stop with
      | failed error => exact absurd outcome (Nesting.unfailing_impulse depth impulse world error after)
      | panicked payload => exact absurd (follows modest) inside
      | exhausted => exact absurd (follows modest) inside

/-- One effect writes what the other one reads and what it has read itself, and the other one writes back and
runs the first one. -/
def crossedWrites : List Command :=
  [.state (.create "s" (.object [("a", .integer 0), ("b", .integer 0)])),
    .createEffect "ping" [.state (.get "s" "a"), .state (.increase "s" "b" 1),
      .state (.set "s" "a" (.integer 1))] {},
    .createEffect "pong" [.state (.get "s" "b"), .state (.increase "s" "a" 1),
      .untracked [.effect (.run "ping"), .effect (.trigger "s" "b")]] {}]

theorem end_of_crossedWrites :
    ∃ after, Live.writeValue (Live.runTo 2) 0 "a" (.integer 7) (World.empty.play crossedWrites).2 =
        .ok () after ∧
      after.graph.effects.size = 2 ∧ after.graph.stack = [] := by
  have reachable : (World.empty.play crossedWrites).2.Reachable :=
    (World.empty.later_play crossedWrites).reachable ⟨[], .here⟩
  have modest : (World.empty.play crossedWrites).2.Modest := World.modest_of_all (by decide +kernel)
  have size : (World.empty.play crossedWrites).2.graph.effects.size = 2 := by decide +kernel
  have stack : (World.empty.play crossedWrites).2.graph.stack = [] := by decide +kernel
  have idle : (World.empty.play crossedWrites).2.idle.length ≤ 2 := by decide +kernel
  obtain ⟨after, returned, -, same, sized, -⟩ :=
    (notifications_end reachable modest (.set 0 "a" (.integer 7))).2 2 idle
  exact ⟨after, returned, sized.trans size, same.trans stack⟩

end LiveMarkup
