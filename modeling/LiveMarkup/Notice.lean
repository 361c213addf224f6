import LiveMarkup.Error
import LiveMarkup.Script.Command

/-
This file names the events that are told to the log, with their levels, channels and texts.
-/

namespace LiveMarkup

inductive Notice where
  | effectRegistered (number : Nat) (label : String)
  | effectBusy (number : Nat) (label : String)
  | effectDisposed (number : Nat) (label : String) (released : Nat)
  | changed (key : String) (target : Nat) (effects : List Nat)
  | reservedInitial
  | reservedValue
  | reservedWrite
  | evaluationFailed (source : String) (error : EvalError)
  | unclosedElements (count : Nat)
  | eventNameMissing (name : String)
  | modelWithoutValue (key tag : String)
  | bound (effects listeners : Nat)
  | bindingsDisposed (effects : Nat)
  | hooksEmitted (kind : HookKind) (count : Nat)
  | hookFailed (kind : HookKind) (error : EvalError)
  | hookPanicked (kind : HookKind) (payload : Option String)
  | hooksFailed (count : Nat) (kind : HookKind) (selector : String)
  | hostCreated (selector : String)
  | hostMounted (selector : String)
  | hostDestroyed (selector : String)
  | hostRendered (count : Nat) (selector : String)
  | rerenderFailed (selector : String) (error : TemplateError)
  | told (level : Level) (text : String)

/-- The payload of a panic is shown if it is text. -/
def panicText (payload : Option String) : String := payload.getD "unknown panic"

namespace Level

/-- A graver level has a lower rank. -/
def rank : Level → Nat
  | .error => 1
  | .warn => 2
  | .info => 3
  | .debug => 4
  | .trace => 5

def name : Level → String
  | .error => "ERROR"
  | .warn => "WARN"
  | .info => "INFO"
  | .debug => "DEBUG"
  | .trace => "TRACE"

end Level

namespace Notice

def level : Notice → Level
  | .effectRegistered .. => .trace
  | .effectBusy .. => .debug
  | .effectDisposed .. => .trace
  | .changed .. => .trace
  | .reservedInitial => .warn
  | .reservedValue => .warn
  | .reservedWrite => .warn
  | .evaluationFailed .. => .warn
  | .unclosedElements .. => .debug
  | .eventNameMissing .. => .warn
  | .modelWithoutValue .. => .warn
  | .bound .. => .debug
  | .bindingsDisposed .. => .debug
  | .hooksEmitted .. => .trace
  | .hookFailed .. => .error
  | .hookPanicked .. => .error
  | .hooksFailed .. => .warn
  | .hostCreated .. => .debug
  | .hostMounted .. => .info
  | .hostDestroyed .. => .info
  | .hostRendered .. => .debug
  | .rerenderFailed .. => .error
  | .told level _ => level

/-- Notices of one part of the library share a channel. -/
def channel : Notice → String
  | .effectRegistered .. => "mizu::engine::reactive"
  | .effectBusy .. => "mizu::engine::reactive"
  | .effectDisposed .. => "mizu::engine::reactive"
  | .changed .. => "mizu::engine::reactive"
  | .reservedInitial => "mizu::engine::state"
  | .reservedValue => "mizu::engine::state"
  | .reservedWrite => "mizu::engine::state"
  | .evaluationFailed .. => "mizu::engine::eval"
  | .unclosedElements .. => "mizu::parser::template"
  | .eventNameMissing .. => "mizu::engine::compiler"
  | .modelWithoutValue .. => "mizu::engine::compiler"
  | .bound .. => "mizu::engine::compiler"
  | .bindingsDisposed .. => "mizu::engine::compiler"
  | .hooksEmitted .. => "mizu::engine::lifecycle"
  | .hookFailed .. => "mizu::engine::lifecycle"
  | .hookPanicked .. => "mizu::engine::lifecycle"
  | .hooksFailed .. => "mizu::engine::component"
  | .hostCreated .. => "mizu::engine::component"
  | .hostMounted .. => "mizu::engine::component"
  | .hostDestroyed .. => "mizu::engine::component"
  | .hostRendered .. => "mizu::engine::component"
  | .rerenderFailed .. => "mizu::engine::component"
  | .told .. => "mizu"

def text : Notice → String
  | .effectRegistered number label =>
      "registering effect #" ++ toString number ++ " (" ++ label ++ ")"
  | .effectBusy number label =>
      "effect #" ++ toString number ++ " (" ++ label ++
        ") is already running; skipping re-entrant trigger"
  | .effectDisposed number label released =>
      "disposed effect #" ++ toString number ++ " (" ++ label ++ "); released " ++
        toString released ++ " subscription(s)"
  | .changed key target effects =>
      "`" ++ key ++ "` changed on #" ++ toString target ++ "; running " ++
        toString effects.length ++
        " effect(s)"
  | .reservedInitial => "`methods` is reserved for methods; dropping the plain value"
  | .reservedValue => "`methods` is reserved for methods; ignoring value"
  | .reservedWrite => "`methods` is reserved for methods; ignoring write"
  | .evaluationFailed source error => "failed to evaluate `" ++ source ++ "`: " ++ error.message
  | .unclosedElements count =>
      "template ended with " ++ toString count ++ " unclosed element(s); closing implicitly"
  | .eventNameMissing name => "`" ++ name ++ "` is missing an event name; ignoring"
  | .modelWithoutValue key tag =>
      "`v-model=\"" ++ key ++ "\"` on <" ++ tag ++
        "> has no effect; only input, textarea and select carry a value"
  | .bound effects listeners =>
      "bound " ++ toString effects ++ " effect(s) and " ++ toString listeners ++ " listener(s)"
  | .bindingsDisposed effects => "disposed " ++ toString effects ++ " binding effect(s)"
  | .hooksEmitted kind count => "emitting " ++ kind.name ++ " to " ++ toString count ++ " hook(s)"
  | .hookFailed kind error => "Error in " ++ kind.name ++ ": " ++ error.message
  | .hookPanicked kind payload => "Panic in " ++ kind.name ++ ": " ++ panicText payload
  | .hooksFailed count kind selector =>
      toString count ++ " " ++ kind.name ++ " hook(s) failed at " ++ selector
  | .hostCreated selector => "component created at " ++ selector
  | .hostMounted selector => "mounted component at " ++ selector
  | .hostDestroyed selector => "destroyed component at " ++ selector
  | .hostRendered count selector => "render #" ++ toString count ++ " of " ++ selector
  | .rerenderFailed selector error => "re-render of " ++ selector ++ " failed: " ++ error.message
  | .told _ text => text

end Notice

end LiveMarkup
