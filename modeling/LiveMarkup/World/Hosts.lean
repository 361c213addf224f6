import LiveMarkup.World.Binder
import LiveMarkup.World.Hooks

/-
This file drives components. A host renders its template anew at every write to its state.
-/

namespace LiveMarkup.Live

/-- This function makes the nodes of a template. A template that does not parse leaves what was made. -/
def parseTemplate (source : String) : Live (Except TemplateError NodeId) := do
  let reading := Markup.read source
  let root ← modifyGet fun world =>
    let (root, forest) := world.forest.plantFragment reading.trees
    (root, { world with forest })
  match reading.error with
  | some error => pure (.error error)
  | none =>
      if 0 < reading.unclosed then note (.unclosedElements reading.unclosed)
      pure (.ok root)

def modifyHost (id : HostId) (change : Host → Host) : Live Unit :=
  modify (World.modifyHost · id change)

/-- The bindings of the last render are disposed and forgotten. -/
def dropBindings (id : HostId) : Live Unit := do
  match (← get).host? id with
  | none => pure ()
  | some host =>
      modifyHost id fun host => { host with bindings := {} }
      disposeBindings host.bindings

/-- New content with its bindings takes the place of the old one. -/
def installContent (id : HostId) (host : Host) (bindings : Bindings) (fragment : NodeId) :
    Live Unit := do
  let forest := (← get).forest
  attest (.rendered id bindings.effects
    (forest.holders host.container ++ forest.appendHolders host.container fragment))
  modifyForest fun forest => (forest.clear host.container).append host.container fragment
  modifyHost id fun host => { host with bindings, renders := host.renders + 1 }

/-- The new content is bound before it is installed. -/
def renderContent (run : Runner) (id : HostId) (host : Host) (fragment : NodeId) : Live Unit := do
  attest (.parsed id host.component.template)
  dropBindings id
  let bindings ← bind run fragment host.state
  installContent id host bindings fragment
  let renders := ((← get).host? id).elim 0 Host.renders
  note (.hostRendered renders host.component.selector)
  discard (run (.rendered id))

/-- A template that does not parse leaves the host as it was. -/
def renderHost (run : Runner) (id : HostId) : Live (Except TemplateError Unit) := do
  match (← get).host? id with
  | none => pure (.ok ())
  | some host =>
      match ← parseTemplate host.component.template with
      | .error error => pure (.error error)
      | .ok fragment => do
          renderContent run id host fragment
          pure (.ok ())

/-- A render that has begun ends, whichever way it does. -/
def drawHost (run : Runner) (id : HostId) : Live (Except TemplateError Unit) := do
  tell id .began
  ending (renderHost run id) (World.tell · id .ended)

/-- A host that is asked to render calls no hooks. -/
def renderAsked (run : Runner) (id : HostId) : Live (Except TemplateError Unit) := do
  tell id (.asked .render)
  match ← drawHost run id with
  | .error error => do
      tell id .refused
      pure (.error error)
  | .ok _ => do
      tell id (.answered .render)
      pure (.ok ())

/-- A host tells how many of its hooks failed. -/
def emitHost (run : Runner) (id : HostId) (kind : HookKind) : Live Unit := do
  match (← get).host? id with
  | none => pure ()
  | some host =>
      tell id (.emitted kind)
      let failures ← emitHooks run host.hooks kind
      if 0 < failures then note (.hooksFailed failures kind host.component.selector)

/-- The render effect depends on all keys of the state. It renders once the host is mounted. -/
def rerender (run : Runner) (id : HostId) : Live Unit := operation do
  match (← get).host? id with
  | none => pure ()
  | some host =>
      if host.alive then
        hold (.host id)
        track host.state .any
        if host.mounted then
          match ← drawHost run id with
          | .ok _ => emitHost run id .update
          | .error error => do
              tell id .refused
              note (.rerenderFailed host.component.selector error)

def addHost (host : Host) : Live HostId :=
  modifyGet fun world =>
    (world.hosts.size, { world with hosts := world.hosts.push host })

/-- A component's state is made from its initial value, or is empty if that is no object. -/
def createComponentState (component : Component Script) : Live TargetId := do
  let state ← tryCatchThe EvalError (createStateFrom component.initial) fun _ => createState []
  component.methods.forM fun (name, body) => addMethod state name (.script body)
  modifyNames fun names => { names with states := names.states.put component.name state }
  pure state

/-- A host announces itself, and then gets the effect that renders it. -/
def enterHost (run : Runner) (component : Component Script) (state : TargetId) (container : NodeId) :
    Live HostId := do
  let id ← addHost { component, state, container, hooks := component.hooks }
  hold (.host id)
  emitHost run id .init
  let effect ← registerEffect run ("render " ++ component.selector) (.render id) []
  modifyHost id fun host => { host with renderEffect := some effect }
  note (.hostCreated component.selector)
  pure id

/-- A host needs a mount point in the document. It renders nothing before it is mounted. -/
def createHost (run : Runner) (component : Component Script) (document : NodeId) :
    Live (Except MountError HostId) := do
  match (← get).forest.query? document component.selector with
  | none => pure (.error (.mountPointNotFound component.selector))
  | some container => do
      let state ← createComponentState component
      pure (.ok (← enterHost run component state container))

/-- The first render comes before the host counts as mounted. -/
def mountHost (run : Runner) (id : HostId) : Live (Except TemplateError Unit) := do
  tell id (.asked .mount)
  match ← drawHost run id with
  | .error error => do
      tell id .refused
      pure (.error error)
  | .ok _ => do
      tell id (.answered .mount)
      modifyHost id fun host => { host with mounted := true }
      let selector := ((← get).host? id).elim "" fun host => host.component.selector
      note (.hostMounted selector)
      emitHost run id .mount
      pure (.ok ())

/-- The container of a host that is destroyed becomes empty. -/
def removeContent (id : HostId) (host : Host) : Live Unit := do
  attest (.destroyed id ((← get).forest.holders host.container))
  modifyForest (·.clear host.container)
  modifyHost id fun host =>
    { host with mounted := false, story := .destroyed host.renders :: host.story }

/-- The container is emptied after the hooks have run. -/
def destroyHost (run : Runner) (id : HostId) : Live Unit := do
  emitHost run id .destroy
  dropBindings id
  match (← get).host? id with
  | none => pure ()
  | some host =>
      removeContent id host
      note (.hostDestroyed host.component.selector)

end LiveMarkup.Live
