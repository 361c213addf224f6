import LiveMarkup.Expr.Cache
import LiveMarkup.Forest.Planting
import LiveMarkup.Forest.Selector
import LiveMarkup.Notice
import LiveMarkup.Reactive.Graph
import LiveMarkup.Script.Command

/-
This file defines the world in which effects, states, nodes and hosts live together, and the
computations that change it.
-/

namespace LiveMarkup

abbrev HostId := Nat

/-- An effect runs a script, keeps a binding up to date, or renders a host. -/
inductive Task where
  | script (name : String) (body : Script)
  | interpolation (state : TargetId) (node : NodeId) (source : String)
  | textBinding (state : TargetId) (node : NodeId) (source : String)
  | valueBinding (state : TargetId) (node : NodeId) (source : String)
  | render (host : HostId)

/-- A listener runs a script, stores the value of an input, or evaluates an expression. -/
inductive Handler where
  | script (body : Script)
  | storeInput (state : TargetId) (key : String) (numeric : Bool)
  | evaluate (state : TargetId) (source : String)

/-- A method runs a script or gives a constant. -/
inductive Method where
  | script (body : Script)
  | constant (value : Value)

/-- A state has values and methods. Once it is gone, nothing can refer to it again. -/
structure Store where
  values : Dictionary Value
  methods : Dictionary Method := []
  alive : Bool := true

/-- Binding a tree gives effects and listeners. -/
structure Bindings where
  effects : List EffectId := []
  listeners : Nat := 0

/-- Hooks are listed in the order of their registration. -/
abbrev Hooks := List (HookKind × Script)

/-- A host can be asked to mount or to render. -/
inductive Call where
  | mount
  | render
deriving DecidableEq, Repr

/-- A host that is asked something answers once it has rendered, or refuses if its template does not
parse. Renders begin and end, hooks are called, and after some renders the container is emptied. -/
inductive Milestone where
  | asked (call : Call)
  | began
  | ended
  | answered (call : Call)
  | refused
  | emitted (kind : HookKind)
  | destroyed (renders : Nat)
deriving DecidableEq, Repr

/-- The story of a host has its latest milestone in front. -/
structure Host where
  component : Component Script
  state : TargetId
  container : NodeId
  hooks : Hooks
  mounted : Bool := false
  bindings : Bindings := {}
  renderEffect : Option EffectId := none
  renders : Nat := 0
  alive : Bool := true
  story : List Milestone := []

/-- A name refers to the last object that it was given to. A handle keeps its state alive. -/
structure Names where
  states : Dictionary TargetId := []
  handles : Dictionary TargetId := []
  effects : Dictionary EffectId := []
  targets : Dictionary TargetId := []
  nodes : Dictionary NodeId := []
  bindings : Dictionary Bindings := []
  emitters : Dictionary Hooks := []
  hosts : Dictionary HostId := []

/-- An operation in progress holds the objects that it works on. -/
inductive Hold where
  | state (id : TargetId)
  | effect (id : EffectId)
  | host (id : HostId)
deriving DecidableEq, Repr

/-- A listener learns the kind of an event, its target, and the node at which it listens. -/
structure Event where
  kind : String
  target : NodeId
  current : NodeId

/-- Scripts leave a record of what happens while they run. -/
inductive Happening where
  | effectStarted (name : String)
  | methodCalled (name : String) (arguments : List Value)
  | eventHeard (kind target current : String)
  | hookCalled (kind : HookKind)
  | rendered (host : String)
  | finished (command : String) (outcome : Except EvalError Value)

/-- A deed changes objects directly, and no binding hears of it. A deed on nodes tells which nodes
show something else afterwards. A panic that a hook catches is a deed too, and so is a read of a state
that has ended. -/
inductive Deed where
  | edited (holders : List NodeId)
  | shown (effect : Option EffectId) (holders : List NodeId)
  | preset (state : TargetId)
  | released (target : TargetId)
  | parsed (host : HostId) (template : String)
  | rendered (host : HostId) (effects : List EffectId) (holders : List NodeId)
  | destroyed (host : HostId) (holders : List NodeId)
  | recovered (payload : Option String)
  | strayed (target : TargetId)
deriving DecidableEq, Repr

/-- A target without a store is a bare identity. The records have their latest entry in front. -/
structure World where
  graph : Graph Task := {}
  targets : Array (Option Store) := #[]
  forest : Forest Handler := {}
  hosts : Array Host := #[]
  names : Names := {}
  holds : List Hold := []
  parses : ParseCache := .empty
  met : List String := []
  happenings : List Happening := []
  notices : List Notice := []
  deeds : List Deed := []

/-- A computation stops at a failure, which scripts may handle, or at a panic, which unwinds. -/
inductive Stop where
  | failed (error : EvalError)
  | panicked (payload : Option String)
  | exhausted

/-- A computation in the world keeps what it changed, also when it stops. -/
abbrev Live := EStateM Stop World

/-- This is code that some object of the world runs. -/
inductive Activity where
  | task (task : Task)
  | method (name : String) (body : Script) (arguments : List Value)
  | handler (handler : Handler) (event : Event)
  | hook (kind : HookKind) (body : Script)
  | rendered (host : HostId)

/-- Operations that reach code of the world are given the way to run it. -/
abbrev Runner := Activity → Live Value

/-- Loops that code of the world can prolong stop after this many further steps. -/
def patience : Nat := powerOfTwo 32

instance : MonadExceptOf EvalError Live where
  throw error := throw (Stop.failed error)
  tryCatch action handle := tryCatch action fun stop =>
    match stop with
    | .failed error => handle error
    | other => throw other

namespace World

def empty : World := {}

def store? (world : World) (id : TargetId) : Option Store := (world.targets[id]?).join

def isAlive (world : World) (id : TargetId) : Bool := (world.store? id).any Store.alive

/-- The identity of a state outlasts the state. -/
def hasEnded (world : World) (id : TargetId) : Bool :=
  (world.store? id).any fun store => !store.alive

def modifyStore (world : World) (id : TargetId) (change : Store → Store) : World :=
  { world with targets := world.targets.modify id fun target => target.map change }

def addTarget (world : World) (store : Option Store) : TargetId × World :=
  (world.targets.size, { world with targets := world.targets.push store })

def host? (world : World) (id : HostId) : Option Host := world.hosts[id]?

def modifyHost (world : World) (id : HostId) (change : Host → Host) : World :=
  { world with hosts := world.hosts.modify id change }

def tell (world : World) (id : HostId) (milestone : Milestone) : World :=
  world.modifyHost id fun host => { host with story := milestone :: host.story }

def note (world : World) (notice : Notice) : World :=
  { world with notices := notice :: world.notices }

def record (world : World) (happening : Happening) : World :=
  { world with happenings := happening :: world.happenings }

def attest (world : World) (deed : Deed) : World := { world with deeds := deed :: world.deeds }

/-- Numbers shown to readers count from one. -/
def number (id : Nat) : Nat := id + 1

end World

namespace Live

def note (notice : Notice) : Live Unit := modify (World.note · notice)

def record (happening : Happening) : Live Unit := modify (World.record · happening)

def attest (deed : Deed) : Live Unit := modify (World.attest · deed)

def tell (id : HostId) (milestone : Milestone) : Live Unit := modify (World.tell · id milestone)

def modifyGraph (change : Graph Task → Graph Task) : Live Unit :=
  modify fun world => { world with graph := change world.graph }

def modifyForest (change : Forest Handler → Forest Handler) : Live Unit :=
  modify fun world => { world with forest := change world.forest }

def modifyNames (change : Names → Names) : Live Unit :=
  modify fun world => { world with names := change world.names }

/-- The operation in progress holds an object from now on. What an outer operation holds already
needs no second hold, because the outer operation ends later. -/
def hold (held : Hold) : Live Unit :=
  modify fun world =>
    if world.holds.contains held then world else { world with holds := held :: world.holds }

def fail {A : Type} (fault : TypeFault) : Live A := throw (EvalError.type fault)

end Live

end LiveMarkup
