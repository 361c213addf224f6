import LiveMarkup.Expr.Eval
import LiveMarkup.Template.Interpolation
import LiveMarkup.World.Effects

/-
This file reads, writes and evaluates states.
-/

namespace LiveMarkup.Live

/-- No value can be stored under this key. -/
def reservedKey : String := "methods"

/-- A new state is held by the operation that makes it. -/
def createState (values : Dictionary Value) : Live TargetId := do
  if values.contains reservedKey then note .reservedInitial
  let id ← modifyGet fun world => world.addTarget (some { values := values.erase reservedKey })
  hold (.state id)
  pure id

/-- A state is made from an object, and from nothing else. -/
def createStateFrom (initial : Value) : Live TargetId :=
  match initial with
  | .object fields => createState fields
  | other => fail (.initializer other.kind)

def valuesOf (state : TargetId) : Live (Dictionary Value) := do
  match (← get).store? state with
  | some store => pure store.values
  | none => pure []

def methodsOf (state : TargetId) : Live (Dictionary Method) := do
  match (← get).store? state with
  | some store => pure store.methods
  | none => pure []

/-- A peek reads a value and subscribes nothing. -/
def peekValue (state : TargetId) (key : String) : Live (Option Value) := do
  pure ((← valuesOf state).get? key)

/-- A read subscribes the active effect, also to a key that is absent. -/
def readValue (state : TargetId) (key : String) : Live (Option Value) := do
  track state (.named key)
  peekValue state key

def putValue (state : TargetId) (key : String) (value : Value) : Live Unit :=
  modify (World.modifyStore · state fun store =>
    { store with values := Dictionary.putSorted store.values key value })

/-- A preset stores a value and tells nobody. -/
def presetValue (state : TargetId) (key : String) (value : Value) : Live Unit :=
  if key = reservedKey then note .reservedValue
  else do
    attest (.preset state)
    putValue state key value

/-- A write stores a value and runs the effects that depend on it, also if it is the same value. -/
def writeValue (run : Runner) (state : TargetId) (key : String) (value : Value) : Live Unit :=
  if key = reservedKey then note .reservedWrite
  else do
    putValue state key value
    trigger run state key

/-- An update computes the new value from the old one, which it does not track. -/
def updateValue (run : Runner) (state : TargetId) (key : String)
    (change : Option Value → Value) : Live Unit := do
  let old ← peekValue state key
  writeValue run state key (change old)

def addMethod (state : TargetId) (name : String) (method : Method) : Live Unit :=
  modify (World.modifyStore · state fun store =>
    { store with methods := store.methods.put name method })

/-- A failure inside a method is reported under its name. -/
def callMethod (run : Runner) (state : TargetId) (name : String) (arguments : List Value) :
    Live Value := do
  match (← methodsOf state).get? name with
  | none => throw (EvalError.unknownMethod name)
  | some (.constant value) => pure value
  | some (.script body) =>
      tryCatchThe EvalError (run (.method name body arguments)) fun error =>
        throw (error.insideMethod name)

/-- The names of a state are its values, except where a method has the same name. -/
def scopeOf (run : Runner) (state : TargetId) : Scope Live where
  lookup name := do
    if (← methodsOf state).contains name then throw (EvalError.notAValue name)
    else match ← readValue state name with
      | some value => pure value
      | none => throw (EvalError.unknownIdentifier name)
  call name arguments := callMethod run state name arguments

/-- A source is parsed once for all evaluations. -/
def parseCached (source : String) : Live (Except EvalError (Nat × Expr)) :=
  modifyGet fun world =>
    let (result, parses) := world.parses.parse source
    (result, { world with parses })

/-- This function evaluates a source strictly, so that it may fail. -/
def evaluateStrictly (run : Runner) (state : TargetId) (source : String) : Live Value := do
  let parsed ← Expr.raise (← parseCached source)
  Expr.eval (scopeOf run state) parsed.2

/-- A failure is noted and gives the empty text. -/
def evaluate (run : Runner) (state : TargetId) (source : String) : Live Value :=
  tryCatchThe EvalError (evaluateStrictly run state source) fun error => do
    note (.evaluationFailed source error)
    pure (.string "")

def evaluateText (run : Runner) (state : TargetId) (source : String) : Live String := do
  pure (← evaluate run state source).display

/-- The expressions of a text are evaluated in order and replaced by what they show. -/
def interpolateSegments (run : Runner) (state : TargetId) :
    List Interpolation.Segment → Live (List Char)
  | [] => pure []
  | .literal c :: rest => do
      let ending ← interpolateSegments run state rest
      pure (c :: ending)
  | .expression source :: rest => do
      let shown ← evaluateText run state (String.ofList source)
      let ending ← interpolateSegments run state rest
      pure (shown.toList ++ ending)

def interpolate (run : Runner) (state : TargetId) (text : String) : Live String := do
  pure (String.ofList (← interpolateSegments run state (Interpolation.segments text.toList)))

end LiveMarkup.Live
