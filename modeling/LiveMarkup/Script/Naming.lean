import LiveMarkup.World.Hosts

/-
This file gives names to objects and finds objects by their names.
-/

namespace LiveMarkup.Live

/-- A name that was given to nothing is a failure. -/
def named {A : Type} (name : String) (found : Option A) : Live A :=
  match found with
  | some object => pure object
  | none => fail (.unknownName name)

/-- A state that is found is held until the operation ends. -/
def stateNamed (name : String) : Live TargetId := do
  let world ← get
  match (world.names.states.get? name).filter world.isAlive with
  | some id => do
      hold (.state id)
      pure id
  | none => fail .stateGone

/-- The name becomes a handle of the state. -/
def nameState (name : String) (id : TargetId) : Live Unit :=
  modifyNames fun names =>
    { names with states := names.states.put name id, handles := names.handles.put name id }

/-- A state's name also names its target, even when the state is gone. -/
def targetNamed (name : String) : Live TargetId := do
  let names := (← get).names
  named name ((names.targets.get? name).orElse fun _ => names.states.get? name)

def effectNamed (name : String) : Live EffectId := do
  let id ← named name ((← get).names.effects.get? name)
  hold (.effect id)
  pure id

def nodeNamed (name : String) : Live NodeId := do named name ((← get).names.nodes.get? name)

def nameNode (name : String) (node : NodeId) : Live Unit :=
  modifyNames fun names => { names with nodes := names.nodes.put name node }

def bindingsNamed (name : String) : Live Bindings := do
  named name ((← get).names.bindings.get? name)

def nameBindings (name : String) (bindings : Bindings) : Live Unit :=
  modifyNames fun names => { names with bindings := names.bindings.put name bindings }

def emitterNamed (name : String) : Live Hooks := do named name ((← get).names.emitters.get? name)

def nameEmitter (name : String) (hooks : Hooks) : Live Unit :=
  modifyNames fun names => { names with emitters := names.emitters.put name hooks }

def hostNamed (name : String) : Live HostId := do
  let id ← named name ((← get).names.hosts.get? name)
  hold (.host id)
  pure id

end LiveMarkup.Live
