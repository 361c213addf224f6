import LiveMarkup.Text.Quoted
import LiveMarkup.World.Events
import LiveMarkup.World.States

/-
This file binds trees to states: interpolations in text, and the directives that attributes hold.
-/

namespace LiveMarkup

namespace Bindings

def addEffect (bindings : Bindings) (id : EffectId) : Bindings :=
  { bindings with effects := bindings.effects ++ [id] }

def addListener (bindings : Bindings) : Bindings :=
  { bindings with listeners := bindings.listeners + 1 }

def isEmpty (bindings : Bindings) : Bool := bindings.effects.isEmpty && bindings.listeners == 0

end Bindings

/-- The name of an attribute says what it does. -/
inductive Directive where
  | text
  | model
  | event (kind : String)
deriving DecidableEq, Repr

namespace Directive

def eventMark : List Char := "v-on:".toList

def ofName? (name : String) : Option Directive :=
  if name = "v-text" then some .text
  else if name = "v-model" then some .model
  else if eventMark.isPrefixOf name.toList then
    some (.event (String.ofList (name.toList.drop eventMark.length)))
  else none

end Directive

namespace Live

/-- A binding stops working when its state is gone. While it works it holds the state. -/
def whileAlive (state : TargetId) (action : Live Unit) : Live Unit := do
  if (← get).isAlive state then
    operation do
      hold (.state state)
      action
  else pure ()

/-- A node shows a text on behalf of the active effect. -/
def showAt (node : NodeId) (shown : String) : Live Unit := do
  let world ← get
  attest (.shown world.graph.active? (world.forest.holders node))
  modifyForest (·.setTextContent node shown)

def showInterpolation (run : Runner) (state : TargetId) (node : NodeId) (source : String) :
    Live Unit := whileAlive state do
  showAt node (← interpolate run state source)

def showText (run : Runner) (state : TargetId) (node : NodeId) (source : String) : Live Unit :=
  whileAlive state do
    showAt node (← evaluateText run state source)

/-- A value that is shown already is not set again. -/
def showValue (run : Runner) (state : TargetId) (node : NodeId) (source : String) : Live Unit :=
  whileAlive state do
    let shown ← evaluateText run state source
    if (← get).forest.value node ≠ shown then modifyForest (·.setValue node shown)

/-- An input's value becomes the state's value. Reads on the way concern no effect. -/
def storeInput (run : Runner) (state : TargetId) (key : String) (numeric : Bool) (node : NodeId) :
    Live Unit := whileAlive state do
  let raw := (← get).forest.value node
  let value := if numeric then Value.ofNumericInput raw else .string raw
  untracked (writeValue run state key value)

def evaluateListener (run : Runner) (state : TargetId) (source : String) : Live Unit :=
  whileAlive state (untracked (discard (evaluate run state source)))

/-- A directive leaves its element when it is bound. -/
def dropDirective (node : NodeId) (name : String) : Live Unit := do
  attest (.edited ((← get).forest.above node))
  modifyForest (·.removeAttribute node name)

def bindInterpolation (run : Runner) (state : TargetId) (node : NodeId) (bindings : Bindings) :
    Live Bindings := do
  let source := (← get).forest.textContent node
  if Interpolation.hasSpan source then
    let label := "\x7b\x7b \x7d\x7d in " ++ Text.quoted (Text.trimString source)
    let effect ← registerEffect run label (.interpolation state node source) []
    pure (bindings.addEffect effect)
  else pure bindings

def bindText (run : Runner) (state : TargetId) (node : NodeId) (source : String)
    (bindings : Bindings) : Live Bindings := do
  let effect ← registerEffect run ("v-text=\"" ++ source ++ "\"") (.textBinding state node source) []
  dropDirective node "v-text"
  pure (bindings.addEffect effect)

/-- Inputs of these types give numbers. -/
def isNumericType (type : Option String) : Bool :=
  match type.map fun name => String.ofList (name.toList.map Char.toLower) with
  | some "number" => true
  | some "range" => true
  | _ => false

/-- An element that carries no value keeps the attribute. -/
def bindModel (run : Runner) (state : TargetId) (node : NodeId) (key : String)
    (bindings : Bindings) : Live Bindings := do
  let forest := (← get).forest
  if forest.isValueBearing node then
    let key := Text.trimString key
    let effect ← registerEffect run ("v-model=\"" ++ key ++ "\"") (.valueBinding state node key) []
    let numeric := isNumericType ((← get).forest.attribute? node "type")
    modifyForest (·.listen node "input" (.storeInput state key numeric))
    dropDirective node "v-model"
    pure (bindings.addEffect effect).addListener
  else
    note (.modelWithoutValue key ((forest.tag? node).getD ""))
    pure bindings

def bindEvent (state : TargetId) (node : NodeId) (name kind source : String)
    (bindings : Bindings) : Live Bindings := do
  if kind = "" then
    note (.eventNameMissing name)
    pure bindings
  else
    modifyForest (·.listen node kind (.evaluate state source))
    dropDirective node name
    pure bindings.addListener

/-- An attribute is bound if it is a directive. -/
def bindAttribute (run : Runner) (state : TargetId) (node : NodeId) (name source : String)
    (bindings : Bindings) : Live Bindings :=
  match Directive.ofName? name with
  | some .text => bindText run state node source bindings
  | some .model => bindModel run state node source bindings
  | some (.event kind) => bindEvent state node name kind source bindings
  | none => pure bindings

/-- The attributes of an element are bound in order. -/
def bindAttributes (run : Runner) (state : TargetId) (node : NodeId) :
    List (String × String) → Bindings → Live Bindings
  | [], bindings => pure bindings
  | (name, source) :: rest, bindings => do
      let bound ← bindAttribute run state node name source bindings
      bindAttributes run state node rest bound

/-- An element whose text is bound manages its content itself. -/
def ownsChildren (attributes : List (String × String)) : Bool :=
  attributes.any fun entry => Directive.ofName? entry.1 = some .text

/-- This function binds one node and tells whether to leave its children out. -/
def bindNode (run : Runner) (state : TargetId) (node : NodeId) (bindings : Bindings) :
    Live (Bindings × Bool) := do
  let forest := (← get).forest
  match forest.content? node with
  | some (.text _) => do
      let bound ← bindInterpolation run state node bindings
      pure (bound, false)
  | some (.element element) => do
      let bound ← bindAttributes run state node element.attributes bindings
      pure (bound, ownsChildren element.attributes)
  | _ => pure (bindings, false)

/-- The nodes are bound in document order, which is looked up anew after each one. -/
def bindFrom (run : Runner) (state : TargetId) (root : NodeId) :
    Nat → Option NodeId → Bindings → Live Bindings
  | _, none, bindings => pure bindings
  | 0, some _, _ => throwThe Stop .exhausted
  | limit + 1, some node, bindings => do
      let (bound, owned) ← bindNode run state node bindings
      let forest := (← get).forest
      let next := if owned then forest.nextSkipping? root node else forest.next? root node
      bindFrom run state root limit next bound

/-- Binding walks over a root and everything below it once. -/
def bind (run : Runner) (root : NodeId) (state : TargetId) : Live Bindings := do
  let world ← get
  let bindings ← bindFrom run state root (world.forest.size + patience) (some root) {}
  note (.bound bindings.effects.length bindings.listeners)
  pure bindings

def disposeBindings (bindings : Bindings) : Live Unit :=
  modify fun world => (world.disposeBindings bindings).collect

end Live

end LiveMarkup
