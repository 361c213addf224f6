import LiveMarkup.World.Effects

/-
This file sends events to listeners, from their target outwards.
-/

namespace LiveMarkup.Live

/-- All listeners that a node had when the event arrived are called in order. -/
def callHandlers (run : Runner) (event : Event) : List Handler → Live Unit
  | [] => pure ()
  | handler :: rest => do
      discard (run (.handler handler event))
      callHandlers run event rest

/-- An event visits a node, and then the parent that the node has by then. -/
def bubble (run : Runner) (kind : String) (target : NodeId) :
    Nat → Option NodeId → Nat → Live Nat
  | _, none, called => pure called
  | 0, some _, _ => throwThe Stop .exhausted
  | limit + 1, some node, called => do
      let handlers := (← get).forest.listenersFor node kind
      callHandlers run { kind, target, current := node } handlers
      let parent := (← get).forest.parent? node
      bubble run kind target limit parent (called + handlers.length)

/-- A dispatch gives the number of listeners that were called. -/
def dispatch (run : Runner) (kind : String) (target : NodeId) : Live Nat := do
  let world ← get
  bubble run kind target (world.forest.size + 1 + patience) (some target) 0

/-- A user's input sets the value and then tells the listeners. -/
def inputValue (run : Runner) (target : NodeId) (value : String) : Live Unit := do
  modifyForest (·.setValue target value)
  discard (dispatch run "input" target)

def click (run : Runner) (target : NodeId) : Live Unit := discard (dispatch run "click" target)

end LiveMarkup.Live
