import LiveMarkup.Script.Perform

/-
This file runs scripts and all other code of a world. Code that is run by code is one level deeper,
and the depth of this nesting is bounded.
-/

namespace LiveMarkup

namespace Live

/-- The arguments that are numbers are added as binary64 numbers. -/
def sumOf (arguments : List Value) : Binary64 :=
  arguments.foldl (fun total argument =>
    match argument with
    | .number value => total.add value.toBinary
    | _ => total) .zero

/-- A run of the active effect chooses the bodies of a cycle one after the other. -/
def turnOf (world : World) (bodies : Nat) : Nat :=
  match world.graph.active?.bind world.graph.effect? with
  | some effect => (effect.runs - 1) % bodies
  | none => 0

/-- A command that ends is recorded, except that a block is recorded only if it fails. -/
def recorded (name : String) (isBlock : Bool) (action : Live Value) : Live Value := fun world =>
  match operation action world with
  | .ok value after =>
      .ok value (if isBlock then after else after.record (.finished name (.ok value)))
  | .error (.failed error) after =>
      .error (.failed error) (after.record (.finished name (.error error)))
  | .error stop after => .error stop after

/-- A condition lets its state go before a branch runs. -/
def isTruthyAt (state key : String) : Live Bool := operation do
  let value ← readValue (← stateNamed state) key
  pure (value.getD .null).isTruthy

mutual

/-- This function performs one command of a script that was called with arguments. -/
def perform (run : Runner) (arguments : List Value) : Command → Live Value
  | .log value => pure value
  | .value value => pure value
  | .argumentAt position => pure (arguments[position]?.getD .null)
  | .arguments => pure (.array arguments)
  | .sum => Expr.raise (Value.ofBinary (sumOf arguments))
  | .fail error => throw error
  | .panic payload => throwThe Stop (.panicked payload)
  | .branch state key yes no => do
      if ← isTruthyAt state key then performAll run arguments .null yes
      else performAll run arguments .null no
  | .cycle bodies => do
      performOne run arguments (turnOf (← get) bodies.length) bodies
  | .once tag body => do
      if (← get).met.contains tag then pure .null
      else
        modify fun world => { world with met := tag :: world.met }
        performAll run arguments .null body
  | .untracked body => untracked (performAll run arguments .null body)
  | .tell level text => do
      note (.told level text)
      pure .null
  | .tellValue level text state key => do
      let value ← peekValue (← stateNamed state) key
      note (.told level (text ++ Value.inspectOption value))
      pure .null
  | .state command => performState run command
  | .method state name body => do
      addMethod (← stateNamed state) name (.script body)
      pure .null
  | .effect command => performEffect run command
  | .createEffect name body options => performCreateEffect run name body options
  | .node command => performNode run command
  | .listen node kind body => changeForest node fun forest id => forest.listen id kind (.script body)
  | .host command => performHost run command
  | .onHook owner kind body => registerHook owner kind body
  | .createHost document component => performCreateHost run document component
  | .inspect kind name => performInspect kind name

/-- The value of a script is that of its last command. The first failure ends it. -/
def performAll (run : Runner) (arguments : List Value) (last : Value) : List Command → Live Value
  | [] => pure last
  | command :: rest => do
      let value ← recorded command.name command.isBlock (perform run arguments command)
      performAll run arguments value rest

/-- This function performs the script at a place of a list. -/
def performOne (run : Runner) (arguments : List Value) : Nat → List (List Command) → Live Value
  | _, [] => pure .null
  | 0, body :: _ => performAll run arguments .null body
  | place + 1, _ :: rest => performOne run arguments place rest

end

/-- The failure of some code goes no further. -/
def swallowing (action : Live Value) : Live Value :=
  tryCatchThe EvalError action fun _ => pure .null

def performTask (run : Runner) : Task → Live Value
  | .script name body => do
      record (.effectStarted name)
      swallowing (performAll run [] .null body)
  | .interpolation state node source => do
      showInterpolation run state node source
      pure .null
  | .textBinding state node source => do
      showText run state node source
      pure .null
  | .valueBinding state node source => do
      showValue run state node source
      pure .null
  | .render host => do
      rerender run host
      pure .null

def performHandler (run : Runner) (event : Event) : Handler → Live Value
  | .script body => do
      let world ← get
      record (.eventHeard event.kind (world.describe event.target) (world.describe event.current))
      swallowing (performAll run [] .null body)
  | .storeInput state key numeric => do
      storeInput run state key numeric event.current
      pure .null
  | .evaluate state source => do
      evaluateListener run state source
      pure .null

/-- The component learns its root, and then its code runs. -/
def performRendered (run : Runner) (id : HostId) : Live Value := do
  match (← get).host? id with
  | none => pure .null
  | some host => do
      nameNode (rootName host.component.name) host.container
      match host.component.rendered with
      | none => pure .null
      | some body => do
          record (.rendered host.component.name)
          swallowing (performAll run [] .null body)

/-- This function runs code of the world, given the way to run the code that this code reaches. -/
def runActivity (run : Runner) : Activity → Live Value
  | .task task => performTask run task
  | .method name body arguments => do
      record (.methodCalled name arguments)
      performAll run arguments .null body
  | .handler handler event => performHandler run event handler
  | .hook kind body => do
      record (.hookCalled kind)
      performAll run [] .null body
  | .rendered host => performRendered run host

/-- Code may nest down to a depth. -/
def runTo : Nat → Runner
  | 0 => fun _ => throwThe Stop .exhausted
  | depth + 1 => runActivity (runTo depth)

/-- Methods and listeners may nest to this depth. -/
def spareDepth : Nat := 20000

/-- Running effects nest too, but none is entered twice. -/
def depthOf (world : World) : Nat := world.graph.effects.size + spareDepth

/-- A command from outside starts at full depth. -/
def start (command : Command) : Live Value := do
  let depth := depthOf (← get)
  operation (perform (runTo depth) [] command)

end Live

/-- A step of a scenario has an outcome and leaves happenings and notices in their order. -/
structure Step where
  outcome : Except Stop Value
  happenings : List Happening
  notices : List Notice

namespace World

/-- This function takes one step. The records of earlier steps are forgotten. -/
def step (world : World) (command : Command) : Step × World :=
  match Live.start command { world with happenings := [], notices := [] } with
  | .ok value after => (⟨.ok value, after.happenings.reverse, after.notices.reverse⟩, after)
  | .error stop after => (⟨.error stop, after.happenings.reverse, after.notices.reverse⟩, after)

/-- This function takes all steps of a scenario. A step that stops does not keep others back. -/
def play (world : World) : List Command → List Step × World
  | [] => ([], world)
  | command :: rest =>
      let (first, after) := world.step command
      let (others, final) := play after rest
      (first :: others, final)

end World

end LiveMarkup
