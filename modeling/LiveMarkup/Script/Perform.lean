import LiveMarkup.Script.Naming
import LiveMarkup.Script.Report

/-
This file performs the commands that contain no scripts.
-/

namespace LiveMarkup.Live

/-- The data of a form is read from a state if its fields have the right types. -/
def formValue (values : Dictionary Value) : Value :=
  match values.get? "name", (values.get? "count") with
  | some (.string name), some (.number number) =>
      match number.signed64? with
      | some count => .array [.string name, .integer count]
      | none => refused
  | _, _ => refused
where
  refused : Value := .object [("error", .string "Type")]

/-- A sum of 64 bit integers wraps around. -/
def wrapped (value : Int) : Int := value.bmod (powerOfTwo 64)

/-- An integer grows by the step, and anything else counts as zero. -/
def increased (step : Int) (old : Option Value) : Value :=
  match old with
  | some (.number number) => .integer (wrapped (number.signed64?.getD 0 + step))
  | _ => .integer step

def performState (run : Runner) : StateCommand → Live Value
  | .create name initial => do
      nameState name (← createStateFrom initial)
      pure .null
  | .createEmpty name => do
      nameState name (← createState [])
      pure .null
  | .createFrom name data => do
      nameState name (← createStateFrom data)
      pure .null
  | .createForm name title count => do
      nameState name (← createState [("count", .integer count), ("name", .string title)])
      pure .null
  | .readForm state => do
      pure (formValue (← valuesOf (← stateNamed state)))
  | .share name state => do
      nameState name (← stateNamed state)
      pure .null
  | .drop name => do
      let held := (← get).names.handles.contains name
      modifyNames fun names => { names with handles := names.handles.erase name }
      pure (.bool held)
  | .isAlive name => do
      let world ← get
      pure (.bool ((world.names.states.get? name).any world.isAlive))
  | .isSame first second => do
      let firstState ← stateNamed first
      let secondState ← stateNamed second
      pure (.bool (firstState == secondState))
  | .identity state => do
      pure (.count (World.number (← stateNamed state)))
  | .get state key => do
      pure (.ofOption (← readValue (← stateNamed state) key))
  | .peek state key => do
      pure (.ofOption (← peekValue (← stateNamed state) key))
  | .contains state key => do
      pure (.bool ((← valuesOf (← stateNamed state)).contains key))
  | .snapshot state => do
      pure (.object (← valuesOf (← stateNamed state)))
  | .set state key value => do
      writeValue run (← stateNamed state) key value
      pure .null
  | .preset state key value => do
      presetValue (← stateNamed state) key value
      pure .null
  | .increase state key step => do
      updateValue run (← stateNamed state) key (increased step)
      pure .null
  | .setEvaluated state key source => do
      let id ← stateNamed state
      writeValue run id key (← evaluateStrictly run id source)
      pure .null
  | .trackAll state => do
      track (← stateNamed state) .any
      pure .null
  | .constantMethod state name value => do
      addMethod (← stateNamed state) name (.constant value)
      pure .null
  | .hasMethod state name => do
      let found := (← methodsOf (← stateNamed state)).contains name
      pure (.array [.bool found, .bool found])
  | .evaluate state source => do
      evaluate run (← stateNamed state) source
  | .evaluateText state source => do
      pure (.string (← evaluateText run (← stateNamed state) source))
  | .evaluateStrictly state source => do
      evaluateStrictly run (← stateNamed state) source
  | .interpolate state text => do
      pure (.string (← interpolate run (← stateNamed state) text))
  | .hasInterpolation text => pure (.bool (Interpolation.hasSpan text))

def performEffect (run : Runner) : EffectCommand → Live Value
  | .run effect => do
      runEffect run (← effectNamed effect)
      pure .null
  | .dispose effect => do
      disposeEffect (← effectNamed effect)
      pure .null
  | .info effect => do
      let id ← effectNamed effect
      pure ((← get).effectValue id)
  | .drop effect => do
      let known := (← get).names.effects.contains effect
      modifyNames fun names => { names with effects := names.effects.erase effect }
      pure (.bool known)
  | .isSame first second => do
      let firstEffect ← effectNamed first
      let secondEffect ← effectNamed second
      pure (.bool (firstEffect == secondEffect))
  | .dependencies effect => do
      let id ← effectNamed effect
      pure ((← get).dependenciesValue id)
  | .active => do
      pure (← get).activeValue
  | .disposeActive => do
      match (← get).graph.active? with
      | some id => do
          disposeEffect id
          pure (.bool true)
      | none => pure (.bool false)
  | .createTarget name => do
      let id ← modifyGet fun world => world.addTarget none
      modifyNames fun names => { names with targets := names.targets.put name id }
      pure .null
  | .track target key => do
      trackByHand (← targetNamed target) key
      pure .null
  | .trigger target key => do
      trigger run (← targetNamed target) key
      pure .null
  | .release target => do
      releaseTarget (← targetNamed target)
      pure .null
  | .subscriberCount target key => do
      let id ← targetNamed target
      pure (.count ((← get).graph.subscriberCount id key))
  | .hasTarget target => do
      let id ← targetNamed target
      pure (.bool ((← get).graph.hasTarget id))

/-- A node that was found gets the name. Otherwise the name keeps its meaning. -/
def nameFound (name : String) (found : Option NodeId) : Live Value :=
  match found with
  | none => pure .null
  | some node => do
      nameNode name node
      pure (.string ((← get).describe node))

def contentOf (kind : NodeKind) (text : String) : Content Handler :=
  match kind with
  | .element => .ofTag text
  | .text => .text text
  | .comment => .comment text
  | .fragment => .fragment

/-- This function asks the forest about one named node. -/
def askForest {A : Type} (node : String) (question : Forest Handler → NodeId → A) : Live A := do
  let id ← nodeNamed node
  pure (question (← get).forest id)

/-- This function changes the forest at one named node. -/
def changeForest (node : String) (change : Forest Handler → NodeId → Forest Handler) :
    Live Value := do
  let id ← nodeNamed node
  modifyForest fun forest => change forest id
  pure .null

/-- An edit changes what some nodes show. -/
def editForest (node : String) (holders : Forest Handler → NodeId → List NodeId)
    (change : Forest Handler → NodeId → Forest Handler) : Live Value := do
  let id ← nodeNamed node
  attest (.edited (holders (← get).forest id))
  modifyForest fun forest => change forest id
  pure .null

def performNode (run : Runner) : NodeCommand → Live Value
  | .create name kind text => do
      let node ← modifyGet fun world =>
        let (node, forest) := world.forest.create (contentOf kind text)
        (node, { world with forest })
      nameFound name (some node)
  | .parse name source => do
      match ← parseTemplate source with
      | .ok root => nameFound name (some root)
      | .error error => pure error.toValue
  | .query name root selector => do
      nameFound name (← askForest root fun forest id => forest.query? id selector)
  | .child name parent position => do
      nameFound name (← askForest parent fun forest id => (forest.children id)[position]?)
  | .firstChild name parent => do
      nameFound name (← askForest parent Forest.firstChild?)
  | .nextSibling name node => do
      nameFound name (← askForest node Forest.nextSibling?)
  | .parent name node => do
      nameFound name (← askForest node Forest.parent?)
  | .next name node root => do
      let rootId ← nodeNamed root
      nameFound name (← askForest node fun forest id => forest.next? rootId id)
  | .skip name node root => do
      let rootId ← nodeNamed root
      nameFound name (← askForest node fun forest id => forest.nextSkipping? rootId id)
  | .queryAll root selector => do
      pure (.strings (← askForest root fun forest id =>
        (forest.queryAll id selector).map forest.outerHtml))
  | .descendants root => do
      let id ← nodeNamed root
      let world ← get
      pure (world.describeAll (world.forest.descendants id))
  | .children parent => do
      let id ← nodeNamed parent
      let world ← get
      pure (world.describeAll (world.forest.children id))
  | .append parent child => do
      let childId ← nodeNamed child
      editForest parent (fun forest id => forest.appendHolders id childId)
        fun forest id => forest.append id childId
  | .detach node => editForest node Forest.above Forest.detach
  | .clear node => editForest node Forest.holders Forest.clear
  | .isSame first second => do
      let firstNode ← nodeNamed first
      let secondNode ← nodeNamed second
      pure (.array [.bool (firstNode == secondNode), .bool (firstNode == secondNode)])
  | .type node => do
      let id ← nodeNamed node
      pure ((← get).typeValue id)
  | .attributeValue node name => do
      pure (.ofText? (← askForest node fun forest id => forest.attribute? id name))
  | .hasAttribute node name => do
      pure (.bool (← askForest node fun forest id => (forest.attribute? id name).isSome))
  | .attributes node => do
      pure (.array ((← askForest node Forest.attributes).map fun entry =>
        .array [.string entry.1, .string entry.2]))
  | .setAttribute node name value =>
      editForest node Forest.above fun forest id => forest.setAttribute id name value
  | .removeAttribute node name =>
      editForest node Forest.above fun forest id => forest.removeAttribute id name
  | .text node => do
      pure (.string (← askForest node Forest.textContent))
  | .setText node text =>
      editForest node Forest.holders fun forest id => forest.setTextContent id text
  | .value node => do
      pure (.string (← askForest node Forest.value))
  | .setValue node value => changeForest node fun forest id => forest.setValue id value
  | .innerHtml node => do
      pure (.string (← askForest node Forest.innerHtml))
  | .outerHtml node => do
      pure (.string (← askForest node Forest.outerHtml))
  | .tree node => do
      let id ← nodeNamed node
      pure ((← get).treeValue id)
  | .listenerCount node kind => do
      pure (.count (← askForest node fun forest id => (forest.listenersFor id kind).length))
  | .dispatch node kind => do
      pure (.count (← dispatch run kind (← nodeNamed node)))
  | .input node value => do
      inputValue run (← nodeNamed node) value
      pure .null
  | .click node => do
      click run (← nodeNamed node)
      pure .null

/-- An error that a script survives is its value. -/
def survived (result : Except TemplateError Unit) : Value :=
  match result with
  | .ok _ => .null
  | .error error => error.toValue

def performHost (run : Runner) : HostCommand → Live Value
  | .bind name node state => do
      let root ← nodeNamed node
      let bindings ← bind run root (← stateNamed state)
      nameBindings name bindings
      pure ((← get).bindingsValue bindings)
  | .bindings name => do
      let bindings ← bindingsNamed name
      pure ((← get).bindingsValue bindings)
  | .disposeBindings name => do
      let bindings ← bindingsNamed name
      nameBindings name {}
      disposeBindings bindings
      pure .null
  | .dropBindings name => do
      let known := (← get).names.bindings.contains name
      modifyNames fun names => { names with bindings := names.bindings.erase name }
      pure (.bool known)
  | .createEmitter name => do
      nameEmitter name []
      pure .null
  | .copyEmitter name emitter => do
      nameEmitter name (← emitterNamed emitter)
      pure .null
  | .hookCount emitter kind => do
      pure (.count ((← emitterNamed emitter).count kind))
  | .emit emitter kind => do
      pure (.count (← emitHooks run (← emitterNamed emitter) kind))
  | .mount host => do
      pure (survived (← mountHost run (← hostNamed host)))
  | .render host => do
      pure (survived (← renderAsked run (← hostNamed host)))
  | .destroy host => do
      destroyHost run (← hostNamed host)
      pure .null
  | .info host => do
      let id ← hostNamed host
      pure ((← get).hostValue id)
  | .setTemplate host template => do
      let id ← hostNamed host
      modifyHost id fun host => { host with component := { host.component with template } }
      pure .null
  | .drop host => do
      let known := (← get).names.hosts.contains host
      modifyNames fun names => { names with hosts := names.hosts.erase host }
      pure (.bool known)

/-- A hook is registered on the host of the given name, or else on the emitter. -/
def registerHook (owner : String) (kind : HookKind) (body : Script) : Live Value := do
  match (← get).names.hosts.get? owner with
  | some id => do
      modifyHost id fun host => { host with hooks := host.hooks ++ [(kind, body)] }
      pure .null
  | none => do
      nameEmitter owner ((← emitterNamed owner) ++ [(kind, body)])
      pure .null

/-- A lazy effect waits for its first run. The operation in progress holds it. -/
def makeEffect (run : Runner) (label : Option String) (isLazy : Bool) (task : Task)
    (captures : List TargetId) : Live EffectId :=
  if isLazy then do
    let id ← createEffect (label.getD "lazy") task captures
    hold (.effect id)
    pure id
  else registerEffect run (label.getD "effect") task captures

/-- The name of an effect is known after its first run. -/
def performCreateEffect (run : Runner) (name : String) (body : Script) (options : EffectOptions) :
    Live Value := do
  let captures ← options.captures.mapM stateNamed
  let id ← makeEffect run options.label options.isLazy (.script name body) captures
  modifyNames fun names => { names with effects := names.effects.put name id }
  pure ((← get).effectValue id)

/-- The root of a component is named after the component. -/
def rootName (component : String) : String := component ++ ".root"

/-- The name of a host is known after its creation. -/
def performCreateHost (run : Runner) (document : String) (component : Component Script) :
    Live Value := do
  match ← createHost run component (← nodeNamed document) with
  | .error error => pure error.toValue
  | .ok id => do
      modifyNames fun names => { names with hosts := names.hosts.put component.name id }
      let world ← get
      (world.host? id).forM fun host => nameNode (rootName component.name) host.container
      pure (world.hostValue id)

def performInspect (kind : Inspected) (name : String) : Live Value := do
  match kind with
  | .state => do
      let id ← stateNamed name
      pure (.string ((← get).inspectState id))
  | .effect => do
      let id ← effectNamed name
      pure (.string ((← get).inspectEffect id))
  | .node => do
      let id ← nodeNamed name
      pure (.string ((← get).inspectNode id))
  | .emitter => do
      pure (.string (World.inspectHooks (← emitterNamed name)))
  | .host => do
      let id ← hostNamed name
      pure (.string ((← get).inspectHost id))

end LiveMarkup.Live
