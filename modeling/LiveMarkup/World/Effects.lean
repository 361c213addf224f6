import LiveMarkup.World.Lifetime

/-
This file runs effects: directly, at their creation, and on a write to what they depend on.
-/

namespace LiveMarkup.Live

/-- A read of a key subscribes the active effect to it. -/
def track (target : TargetId) (key : Key) : Live Unit := modifyGraph (·.track ⟨target, key⟩)

/-- Whoever knows an identity can track it by hand, even when its state has ended. -/
def trackByHand (target : TargetId) (key : Key) : Live Unit := do
  if (← get).hasEnded target then attest (.strayed target)
  track target key

/-- An effect runs unless it is disposed or already running. -/
def runEffect (run : Runner) (id : EffectId) : Live Unit := do
  let world ← get
  match world.graph.effect? id with
  | none => pure ()
  | some effect =>
      if effect.disposed then pure ()
      else if world.graph.isRunning id then
        note (.effectBusy (World.number id) effect.label)
      else
        inFrame (some id) do
          modifyGraph (·.countRun id)
          discard (run (.task effect.task))

/-- The operation in progress lets go of an effect that it has dealt with. -/
def letGo (id : EffectId) : Live Unit :=
  modify fun world => { world with holds := world.holds.erase (.effect id) }.collect

/-- Each effect is held until its turn is over. -/
def runInTurn (run : Runner) : List EffectId → Live Unit
  | [] => pure ()
  | id :: rest => do
      runEffect run id
      letGo id
      runInTurn run rest

/-- A write runs the effects that it concerned when it happened, in the order of their numbers. -/
def trigger (run : Runner) (target : TargetId) (name : String) : Live Unit := operation do
  let effects := (← get).graph.concerned target name
  unless effects.isEmpty do note (.changed name (World.number target) effects)
  modify fun world => { world with holds := effects.map .effect ++ world.holds }
  runInTurn run effects

def createEffect (label : String) (task : Task) (captures : List TargetId) : Live EffectId :=
  modifyGet fun world =>
    let (id, graph) := world.graph.create label task captures
    (id, { world with graph })

/-- A registered effect runs once at once. The operation in progress holds it. -/
def registerEffect (run : Runner) (label : String) (task : Task) (captures : List TargetId) :
    Live EffectId := do
  let id ← createEffect label task captures
  hold (.effect id)
  note (.effectRegistered (World.number id) label)
  runEffect run id
  pure id

/-- A target that is released by hand loses its effects without a word to them. -/
def releaseTarget (target : TargetId) : Live Unit := do
  attest (.released target)
  modifyGraph (·.release target)

def disposeEffect (id : EffectId) : Live Unit := modify fun world => (world.disposeEffect id).collect

end LiveMarkup.Live
