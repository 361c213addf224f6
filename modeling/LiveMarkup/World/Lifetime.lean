import LiveMarkup.Marking
import LiveMarkup.World.Basic

/-
This file ends the lives of states and hosts. An object lives while a name, an operation in
progress, a living host or an effect that is still referred to holds it.
-/

namespace LiveMarkup

namespace Graph

variable {Task : Type}

/-- These are the effects that the table refers to. -/
def subscribed (graph : Graph Task) : List EffectId :=
  graph.table.flatMap fun entry => entry.2.all

/-- An effect holds the states that it captured. -/
def capturesOf (graph : Graph Task) (id : EffectId) : List TargetId :=
  match graph.effect? id with
  | some effect => effect.captures
  | none => []

end Graph

namespace Hold

def effect? : Hold → Option EffectId
  | .effect id => some id
  | _ => none

def state? : Hold → Option TargetId
  | .state id => some id
  | _ => none

end Hold

namespace World

def disposeEffect (world : World) (id : EffectId) : World :=
  match world.graph.effect? id with
  | none => world
  | some effect =>
      if effect.disposed then world
      else { world with graph := world.graph.dispose id }.note
        (.effectDisposed (number id) effect.label effect.dependencies.length)

/-- This function disposes effects in their order and tells how many there were. -/
def disposeBindings (world : World) (bindings : Bindings) : World :=
  let disposed := bindings.effects.foldl disposeEffect world
  if bindings.effects.isEmpty then disposed
  else disposed.note (.bindingsDisposed bindings.effects.length)

/-- Names, frames of the stack, operations and subscriptions refer to effects. -/
def effectReferences (world : World) : List EffectId :=
  world.names.effects.map Prod.snd ++ world.graph.stack.filterMap id ++
    world.holds.filterMap Hold.effect? ++ world.graph.subscribed

/-- These are the states that some effect captured which is still referred to. -/
def capturedStates (world : World) : List TargetId :=
  let size := world.graph.effects.size
  ((List.range size).filter (Marking.ofList size world.effectReferences).has).flatMap
    world.graph.capturesOf

/-- Handles, operations and living hosts refer to states. -/
def stateReferences (world : World) : List TargetId :=
  world.names.handles.map Prod.snd ++ world.holds.filterMap Hold.state? ++
    (world.hosts.toList.filter Host.alive).map Host.state

def holdsHost (world : World) (id : HostId) : Bool :=
  (world.names.hosts.any fun entry => entry.2 = id) || world.holds.contains (.host id)

/-- A host that goes disposes its effects, and then lets its state go. -/
def endHost (world : World) (id : HostId) : World :=
  match world.host? id with
  | none => world
  | some host =>
      let ended := world.modifyHost id fun host =>
        { host with alive := false, bindings := {}, renderEffect := none }
      let stilled := match host.renderEffect with
        | some effect => ended.disposeEffect effect
        | none => ended
      stilled.disposeBindings host.bindings

/-- A state that goes takes its subscriptions with it. -/
def endState (world : World) (id : TargetId) : World :=
  { world.modifyStore id fun store => { store with alive := false } with
    graph := world.graph.release id }

def hostsToEnd (world : World) : List HostId :=
  (List.range world.hosts.size).filter fun id =>
    (world.host? id).any Host.alive && !world.holdsHost id

/-- A living state ends when nothing refers to it and no effect captured it. The captures are looked
through only for states that nothing else keeps. -/
def statesToEnd (world : World) : List TargetId :=
  let size := world.targets.size
  let referred := Marking.ofList size world.stateReferences
  let loose := (List.range size).filter fun id => world.isAlive id && !referred.has id
  if loose.isEmpty then []
  else
    let captured := Marking.ofList size world.capturedStates
    loose.filter fun id => !captured.has id

theorem mem_capturedStates (world : World) (state : TargetId) :
    state ∈ world.capturedStates ↔
      ∃ effect ∈ world.effectReferences, state ∈ world.graph.capturesOf effect := by
  have known : ∀ effect, state ∈ world.graph.capturesOf effect →
      effect < world.graph.effects.size := by
    intro effect captured
    by_cases below : effect < world.graph.effects.size
    · exact below
    · simp [Graph.capturesOf, Graph.effect?, Array.getElem?_eq_none (Nat.le_of_not_lt below)]
        at captured
  constructor
  · intro member
    obtain ⟨effect, chosen, captured⟩ := List.mem_flatMap.mp member
    have marked := (List.mem_filter.mp chosen).2
    exact ⟨effect, (Marking.has_ofList _ (known effect captured)).mp marked, captured⟩
  · rintro ⟨effect, referred, captured⟩
    refine List.mem_flatMap.mpr ⟨effect, List.mem_filter.mpr ⟨?_, ?_⟩, captured⟩
    · exact List.mem_range.mpr (known effect captured)
    · exact (Marking.has_ofList _ (known effect captured)).mpr referred

theorem mem_statesToEnd (world : World) (id : TargetId) :
    id ∈ world.statesToEnd ↔
      world.isAlive id = true ∧ id ∉ world.stateReferences ∧ id ∉ world.capturedStates := by
  by_cases below : id < world.targets.size
  · have referred := Marking.has_ofList world.stateReferences below
    have captured := Marking.has_ofList world.capturedStates below
    simp only [statesToEnd]
    split
    · rename_i empty
      have none := List.filter_eq_nil_iff.mp (List.isEmpty_iff.mp empty) id (List.mem_range.mpr below)
      constructor
      · intro member
        cases member
      · rintro ⟨alive, free, -⟩
        simp [alive, ← referred] at none free
        simp [none] at free
    · simp only [List.mem_filter, List.mem_range, below, true_and, ← referred, ← captured,
        Bool.and_eq_true, Bool.not_eq_true', Bool.not_eq_true]
      exact and_assoc
  · have gone : world.isAlive id = false := by
      simp [isAlive, store?, Array.getElem?_eq_none (Nat.le_of_not_lt below)]
    simp only [statesToEnd]
    split <;> simp [below, gone]

/-- The end of one object may free others, so the search is repeated at most `rounds` times. -/
def collectRounds (world : World) : Nat → World
  | 0 => world
  | rounds + 1 =>
      match world.hostsToEnd, world.statesToEnd with
      | [], [] => world
      | [], states => collectRounds (states.foldl endState world) rounds
      | hosts, _ => collectRounds (hosts.foldl endHost world) rounds

/-- Each round ends at least one object, so there are no more rounds than objects. -/
def collect (world : World) : World :=
  world.collectRounds (world.hosts.size + world.targets.size + 1)

end World

namespace Live

/-- This function changes the world at the end of a computation, however it ends. -/
def ending {A : Type} (action : Live A) (change : World → World) : Live A := fun world =>
  match action world with
  | .ok value after => .ok value (change after)
  | .error stop after => .error stop (change after)

/-- An operation lets go at its end of what it held. -/
def operation {A : Type} (action : Live A) : Live A := fun world =>
  let holds := world.holds
  ending action (fun after => { after with holds }.collect) world

/-- This function runs an action with a frame on the stack and takes the frame off again. -/
def inFrame {A : Type} (frame : Option EffectId) (action : Live A) : Live A := do
  modifyGraph (·.push frame)
  ending action fun after => { after with graph := after.graph.pop }.collect

/-- Reads inside an untracked action concern no effect. -/
def untracked {A : Type} (action : Live A) : Live A := inFrame none action

end Live

end LiveMarkup
