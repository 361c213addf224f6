import LiveMarkup.Proofs.Observation
import LiveMarkup.Script.Interpreter

/-
This file shows that code that only looks at the world follows each conduct that its few operations
follow.
-/

namespace LiveMarkup

open Live in
/-- These operations occur everywhere, also in code that only reads. -/
structure Plain (conduct : Conduct) : Prop where
  finishes : ∀ name outcome world, conduct.calm world (world.record (.finished name outcome))
  notes : ∀ notice world, conduct.calm world (world.note notice)
  meets : ∀ tag world, conduct.calm world { world with met := tag :: world.met }
  parses : ∀ source (world : World),
    conduct.calm world { world with parses := (world.parses.parse source).2 }
  holds : ∀ held world, Follows conduct (hold held) world
  readies : ∀ state (world : World), world.isAlive state = true → .state state ∈ world.holds →
    conduct.ready state world := by exact fun _ _ _ _ => trivial
  operates : ∀ {A : Type} (action : Live A) (world : World), Follows conduct action world →
    Follows conduct (operation action) world
  letsGo : ∀ id world, Follows conduct (letGo id) world
  frames : ∀ {state : TargetId} {world : World}, conduct.ready state world →
    conduct.ready state { world with graph := world.graph.push none } := by exact fun _ => trivial
  untracks : ∀ {A : Type} (action : Live A) (world : World),
    Follows conduct action { world with graph := world.graph.push none } →
      Follows conduct (untracked action) world
  tracks : ∀ state key world, conduct.ready state world → Follows conduct (track state key) world
  tracksByHand : ∀ target key world, Follows conduct (trackByHand target key) world
  nodes : ∀ nodes (world : World),
    conduct.calm world { world with names := { world.names with nodes } }

/-- To track by hand is to attest and to track. -/
theorem Live.Follows.trackByHand {conduct : Conduct} {target : TargetId} {key : Key}
    (attests : ∀ world, Live.Follows conduct (Live.attest (.strayed target)) world)
    (tracks : ∀ world, Live.Follows conduct (Live.track target key) world) (world : World) :
    Live.Follows conduct (Live.trackByHand target key) world := by
  refine Live.Follows.asks ?_
  split
  · exact (attests world).bind fun _ after _ => tracks after
  · exact tracks world

namespace Plain

open Live

variable {conduct : Conduct} {A : Type} {world : World}

theorem note (plain : Plain conduct) (notice : Notice) :
    Follows conduct (Live.note notice) world := plain.notes notice world

theorem operation (plain : Plain conduct) {action : Live A}
    (follows : Follows conduct action world) : Follows conduct (Live.operation action) world :=
  plain.operates action world follows

/-! Names. -/

theorem named (name : String) (found : Option A) :
    Follows conduct (Live.named name found) world := by
  cases found with
  | some object => exact Follows.pure object
  | none => exact Follows.fails _

/-- What an operation holds while it lives is ready. -/
theorem ready_of_hold (plain : Plain conduct) {state : TargetId} {held : World} {value : Unit}
    (alive : world.isAlive state = true) (holds : Live.hold (.state state) world = .ok value held) :
    conduct.ready state held := by
  refine plain.readies state held ?_ (mem_holds_of_hold holds)
  cases holds
  dsimp only
  split <;> exact alive

/-- A state that is found by its name is ready. -/
theorem gives_stateNamed (plain : Plain conduct) (name : String) :
    Gives conduct conduct.ready (Live.stateNamed name) world := by
  refine Gives.asks ?_
  split
  · rename_i id found
    have alive := (Option.filter_eq_some_iff.mp found).2
    exact Gives.bind ⟨plain.holds _ world, fun _ held holds => plain.ready_of_hold alive holds⟩
      fun _ _ _ ready => Gives.pure ready
  · exact ⟨Follows.fails _, fun _ _ impossible => by cases impossible⟩

theorem stateNamed (plain : Plain conduct) (name : String) :
    Follows conduct (Live.stateNamed name) world := (plain.gives_stateNamed name).1

theorem targetNamed (name : String) : Follows conduct (Live.targetNamed name) world :=
  Follows.asks (named name _)

theorem effectNamed (plain : Plain conduct) (name : String) :
    Follows conduct (Live.effectNamed name) world :=
  Follows.asks ((named name _).bind fun _ after _ =>
    (plain.holds _ after).bind fun _ _ _ => Follows.pure _)

theorem hostNamed (plain : Plain conduct) (name : String) :
    Follows conduct (Live.hostNamed name) world :=
  Follows.asks ((named name _).bind fun _ after _ =>
    (plain.holds _ after).bind fun _ _ _ => Follows.pure _)

theorem nodeNamed (name : String) : Follows conduct (Live.nodeNamed name) world :=
  Follows.asks (named name _)

theorem bindingsNamed (name : String) : Follows conduct (Live.bindingsNamed name) world :=
  Follows.asks (named name _)

theorem emitterNamed (name : String) : Follows conduct (Live.emitterNamed name) world :=
  Follows.asks (named name _)

/-! Turns of effects. -/

theorem runInTurn (plain : Plain conduct) {run : Runner}
    (runs : ∀ id after, Follows conduct (Live.runEffect run id) after) (ids : List EffectId)
    (world : World) : Follows conduct (Live.runInTurn run ids) world := by
  induction ids generalizing world with
  | nil => exact Follows.pure _
  | cons id rest inductionHypothesis =>
      exact (runs id world).bind fun _ _ _ => (plain.letsGo id _).bind fun _ after _ =>
        inductionHypothesis after

/-- A notification is within a conduct if the effects are that it runs. -/
theorem trigger (plain : Plain conduct) {run : Runner}
    (holding : ∀ (effects : List EffectId) (after : World),
      conduct.calm after { after with holds := effects.map .effect ++ after.holds })
    (runs : ∀ id after, Follows conduct (Live.runEffect run id) after) (target : TargetId)
    (name : String) (world : World) : Follows conduct (Live.trigger run target name) world := by
  refine plain.operation (Follows.asks ?_)
  dsimp only
  have turns : ∀ after, Follows conduct (do
      modify fun current => { current with
        holds := (world.graph.concerned target name).map .effect ++ current.holds }
      Live.runInTurn run (world.graph.concerned target name)) after :=
    fun after => (Follows.modifies (holding _ after)).bind fun _ held _ => plain.runInTurn runs _ held
  split
  · exact turns world
  · exact (plain.note _).bind fun _ after _ => turns after

/-- A write is a change of the values and a notification. -/
theorem writeValue (plain : Plain conduct) {run : Runner} {state : TargetId} {key : String}
    {value : Value} (puts : Follows conduct (Live.putValue state key value) world)
    (triggers : ∀ after, Follows conduct (Live.trigger run state key) after) :
    Follows conduct (Live.writeValue run state key value) world := by
  unfold Live.writeValue
  split
  · exact plain.note _
  · exact puts.bind fun _ after _ => triggers after

theorem presetValue (plain : Plain conduct) {state : TargetId} {key : String} {value : Value}
    (attests : ∀ world, Follows conduct (Live.attest (.preset state)) world)
    (puts : ∀ world, Follows conduct (Live.putValue state key value) world) (world : World) :
    Follows conduct (Live.presetValue state key value) world := by
  unfold Live.presetValue
  split
  · exact plain.note _
  · exact (attests world).bind fun _ after _ => puts after

/-! States and expressions. -/

theorem valuesOf (state : TargetId) : Follows conduct (Live.valuesOf state) world := by
  refine Follows.asks ?_
  split <;> exact Follows.pure _

theorem methodsOf (state : TargetId) : Follows conduct (Live.methodsOf state) world := by
  refine Follows.asks ?_
  split <;> exact Follows.pure _

theorem peekValue (state : TargetId) (key : String) :
    Follows conduct (Live.peekValue state key) world :=
  (valuesOf state).bind fun _ _ _ => Follows.pure _

theorem readValue (plain : Plain conduct) {state : TargetId} (key : String)
    (ready : conduct.ready state world) : Follows conduct (Live.readValue state key) world :=
  (plain.tracks state _ world ready).bind fun _ _ _ => peekValue state key

theorem lookup (plain : Plain conduct) (run : Runner) {state : TargetId} (name : String)
    (ready : conduct.ready state world) :
    Follows conduct ((Live.scopeOf run state).lookup name) world := by
  refine (methodsOf state).bindReady ready fun methods after ready => ?_
  split
  · exact Follows.fails _
  · refine (plain.readValue name ready).bind fun value final _ => ?_
    split
    · exact Follows.pure _
    · exact Follows.fails _

/-- A binding holds its state while it works. -/
theorem whileAlive (plain : Plain conduct) (state : TargetId) {action : Live Unit}
    (follows : ∀ after, conduct.ready state after → Follows conduct action after) :
    Follows conduct (Live.whileAlive state action) world := by
  refine Follows.asks ?_
  split
  · rename_i alive
    exact plain.operation ((plain.holds _ world).bind fun _ after holds =>
      follows after (plain.ready_of_hold alive holds))
  · exact Follows.pure _

theorem nameNode (plain : Plain conduct) (name : String) (node : NodeId) :
    Follows conduct (Live.nameNode name node) world := plain.nodes _ world

theorem untracked (plain : Plain conduct) {action : Live A}
    (follows : ∀ after, Follows conduct action after) :
    Follows conduct (Live.untracked action) world :=
  plain.untracks action world (follows _)

/-- An operation on a state starts where the state was found. -/
theorem onState (plain : Plain conduct) (name : String) {next : TargetId → Live A}
    (continued : ∀ id after, conduct.ready id after → Follows conduct (next id) after) :
    Follows conduct (Live.stateNamed name >>= next) world :=
  (plain.stateNamed name).bind fun id after outcome =>
    continued id after ((plain.gives_stateNamed name).2 id after outcome)

/-! Expressions. They are evaluated if they contain no calls, or if calls follow the conduct. -/

section

variable {mayCall : Prop} {run : Runner}

mutual

/-- An expression reaches the world through names and calls only. -/
theorem evals (plain : Plain conduct) (state : TargetId)
    (calls : mayCall → ∀ name arguments after,
      Follows conduct (Live.callMethod run state name arguments) after)
    (world : World) (ready : conduct.ready state world) :
    ∀ expr : Expr, expr.isCallFree = true ∨ mayCall →
      Follows conduct (Expr.eval (Live.scopeOf run state) expr) world
  | .number value, _ => Follows.raises _
  | .string value, _ => Follows.pure _
  | .bool value, _ => Follows.pure _
  | .null, _ => Follows.pure _
  | .ident name, _ => plain.lookup run name ready
  | .member object property, free => by
      unfold Expr.isCallFree at free
      exact (evals plain state calls world ready object free).bind fun _ _ _ => Follows.raises _
  | .index object position, free => by
      unfold Expr.isCallFree at free
      rw [Bool.and_eq_true] at free
      exact (evals plain state calls world ready object (free.imp_left And.left)).bindReady ready
        fun _ after ready =>
          (evals plain state calls after ready position (free.imp_left And.right)).bind fun _ _ _ =>
            Follows.raises _
  | .call name arguments, free => by
      have may : mayCall := free.resolve_left fun impossible => by cases impossible
      exact (evalsAll plain state calls may world ready arguments).bind fun values after _ =>
        calls may name values after
  | .unary operator operand, free => by
      unfold Expr.isCallFree at free
      exact (evals plain state calls world ready operand free).bind fun _ _ _ => Follows.raises _
  | .binary operator left right, free => by
      unfold Expr.isCallFree at free
      rw [Bool.and_eq_true] at free
      refine (evals plain state calls world ready left (free.imp_left And.left)).bindReady ready
        fun value after ready => ?_
      split
      · exact Follows.pure _
      · split
        · exact Follows.pure _
        · exact (evals plain state calls after ready right (free.imp_left And.right)).bind
            fun _ _ _ => Follows.raises _
  | .conditional test yes no, free => by
      unfold Expr.isCallFree at free
      rw [Bool.and_eq_true, Bool.and_eq_true] at free
      refine (evals plain state calls world ready test (free.imp_left fun all => all.1.1)).bindReady
        ready fun value after ready => ?_
      split
      · exact evals plain state calls after ready yes (free.imp_left fun all => all.1.2)
      · exact evals plain state calls after ready no (free.imp_left And.right)

theorem evalsAll (plain : Plain conduct) (state : TargetId)
    (calls : mayCall → ∀ name arguments after,
      Follows conduct (Live.callMethod run state name arguments) after)
    (may : mayCall) (world : World) (ready : conduct.ready state world) :
    ∀ exprs : List Expr, Follows conduct (Expr.evalAll (Live.scopeOf run state) exprs) world
  | [] => Follows.pure _
  | first :: rest =>
      (evals plain state calls world ready first (Or.inr may)).bindReady ready fun _ after ready =>
        (evalsAll plain state calls may after ready rest).bind fun _ _ _ => Follows.pure _

end

variable (plain : Plain conduct) (state : TargetId)
  (calls : mayCall → ∀ name arguments after,
    Follows conduct (Live.callMethod run state name arguments) after)
include plain calls

/-- What the cache has for a source is what the source says. -/
theorem evaluatesStrictly (source : String) (ready : conduct.ready state world)
    (free : Expr.isCallFreeSource source = true ∨ mayCall) :
    Follows conduct (Live.evaluateStrictly run state source) world := by
  have faithful := world.parses.map_parse source
  unfold Expr.isCallFreeSource at free
  have reached : Live.parseCached source world = .ok (world.parses.parse source).1
      { world with parses := (world.parses.parse source).2 } := rfl
  have parses : Follows conduct (Live.parseCached source) world :=
    Follows.modifiesGet (plain.parses source world)
  refine parses.bind fun parsed after outcome => ?_
  have still := conduct.lasts (parses.calm outcome) ready
  have same : (world.parses.parse source).1 = parsed := by
    have both := reached.symm.trans outcome
    injection both
  cases parsed with
  | error error => exact Follows.fails _
  | ok placed =>
      rw [← faithful, same] at free
      exact (Follows.raises _).bind fun _ _ raised => by
        cases raised
        exact plain.evals state calls _ still placed.2 free

theorem evaluates (source : String) (ready : conduct.ready state world)
    (free : Expr.isCallFreeSource source = true ∨ mayCall) :
    Follows conduct (Live.evaluate run state source) world :=
  (plain.evaluatesStrictly state calls source ready free).catches fun _ _ _ =>
    (plain.note _).bind fun _ _ _ => Follows.pure _

theorem evaluatesText (source : String) (ready : conduct.ready state world)
    (free : Expr.isCallFreeSource source = true ∨ mayCall) :
    Follows conduct (Live.evaluateText run state source) world :=
  (plain.evaluates state calls source ready free).bind fun _ _ _ => Follows.pure _

theorem interpolatesSegments (segments : List Interpolation.Segment)
    (free : Interpolation.areCallFree segments = true ∨ mayCall) (world : World)
    (ready : conduct.ready state world) :
    Follows conduct (Live.interpolateSegments run state segments) world := by
  induction segments generalizing world with
  | nil => exact Follows.pure _
  | cons segment rest inductionHypothesis =>
      have both := free.imp_left (Bool.and_eq_true _ _).mp
      have rests := inductionHypothesis (both.imp_left And.right)
      cases segment with
      | literal c => exact (rests world ready).bind fun _ _ _ => Follows.pure _
      | expression source =>
          exact (plain.evaluatesText state calls _ ready (both.imp_left And.left)).bindReady ready
            fun _ after ready => (rests after ready).bind fun _ _ _ => Follows.pure _

theorem interpolates (text : String) (ready : conduct.ready state world)
    (free : Interpolation.isCallFree text = true ∨ mayCall) :
    Follows conduct (Live.interpolate run state text) world :=
  (plain.interpolatesSegments state calls _ free world ready).bind fun _ _ _ => Follows.pure _

end

/-! Nodes. -/

theorem nameFound (plain : Plain conduct) (name : String) (found : Option NodeId) :
    Follows conduct (Live.nameFound name found) world := by
  cases found with
  | none => exact Follows.pure _
  | some node =>
      exact (plain.nameNode name node).bind fun _ _ _ => Follows.asks (Follows.pure _)

theorem askForest (node : String) (question : Forest Handler → NodeId → A) :
    Follows conduct (Live.askForest node question) world :=
  (nodeNamed node).bind fun _ _ _ => Follows.asks (Follows.pure _)

/-- A node that the forest is asked for gets a name. -/
theorem names_askForest (plain : Plain conduct) (name node : String)
    (question : Forest Handler → NodeId → Option NodeId) :
    Follows conduct (do Live.nameFound name (← Live.askForest node question)) world :=
  (askForest node question).bind fun _ _ _ => plain.nameFound name _

/-- What the forest is asked for is told as a value. -/
theorem tells_askForest (node : String) (question : Forest Handler → NodeId → A)
    (told : A → Value) :
    Follows conduct (do pure (told (← Live.askForest node question))) world :=
  (askForest node question).bind fun _ _ _ => Follows.pure _

/-! Scripts. -/

/-- The record of a command comes after its operation has ended. -/
theorem recorded (plain : Plain conduct) (name : String) (isBlock : Bool)
    {action : Live Value} (follows : Follows conduct action world) :
    Follows conduct (Live.recorded name isBlock action) world := by
  have operated := plain.operation follows
  unfold Follows at operated ⊢
  unfold Live.recorded
  cases outcome : Live.operation action world with
  | ok value after =>
      rw [outcome] at operated
      cases isBlock with
      | true => exact operated
      | false => exact conduct.trans operated (plain.finishes name _ after)
  | error stop after =>
      rw [outcome] at operated
      cases stop with
      | failed error => exact conduct.trans operated (plain.finishes name _ after)
      | panicked payload => exact operated
      | exhausted => exact operated

theorem isTruthyAt (plain : Plain conduct) (state key : String) :
    Follows conduct (Live.isTruthyAt state key) world :=
  plain.operation (plain.onState state fun _ _ ready =>
    (plain.readValue key ready).bind fun _ _ _ => Follows.pure _)

/-- The failure of some code goes no further. -/
theorem swallowing {action : Live Value} (follows : Follows conduct action world) :
    Follows conduct (Live.swallowing action) world :=
  follows.catches fun _ _ _ => Follows.pure _

end Plain

end LiveMarkup
