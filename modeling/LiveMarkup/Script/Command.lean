import LiveMarkup.Error
import LiveMarkup.Reactive.Graph

/-
This file defines the commands of scripts. Effects, methods, listeners and hooks run scripts, so
that all code that belongs to a world is data of that world.
-/

namespace LiveMarkup

/-- A component announces these moments of its life. -/
inductive HookKind where
  | init
  | mount
  | update
  | destroy
deriving DecidableEq, Repr

/-- A notice is told at one of these levels, the gravest first. -/
inductive Level where
  | error
  | warn
  | info
  | debug
  | trace
deriving DecidableEq, Repr

/-- These commands make, read and write states, which they name. -/
inductive StateCommand where
  | create (name : String) (initial : Value)
  | createEmpty (name : String)
  | createFrom (name : String) (data : Value)
  | createForm (name : String) (title : String) (count : Int)
  | readForm (state : String)
  | share (name : String) (state : String)
  | drop (name : String)
  | isAlive (name : String)
  | isSame (first second : String)
  | identity (state : String)
  | get (state key : String)
  | peek (state key : String)
  | contains (state key : String)
  | snapshot (state : String)
  | set (state key : String) (value : Value)
  | preset (state key : String) (value : Value)
  | increase (state key : String) (step : Int)
  | setEvaluated (state key source : String)
  | trackAll (state : String)
  | constantMethod (state name : String) (value : Value)
  | hasMethod (state name : String)
  | evaluate (state source : String)
  | evaluateText (state source : String)
  | evaluateStrictly (state source : String)
  | interpolate (state text : String)
  | hasInterpolation (text : String)

/-- These commands concern effects and targets, which they name. -/
inductive EffectCommand where
  | run (effect : String)
  | dispose (effect : String)
  | info (effect : String)
  | drop (effect : String)
  | isSame (first second : String)
  | dependencies (effect : String)
  | active
  | disposeActive
  | createTarget (name : String)
  | track (target : String) (key : Key)
  | trigger (target key : String)
  | release (target : String)
  | subscriberCount (target : String) (key : Key)
  | hasTarget (target : String)

/-- A new node is of one of these kinds. -/
inductive NodeKind where
  | element
  | text
  | comment
  | fragment
deriving DecidableEq, Repr

/-- These commands make, find, read and change nodes, which they name. -/
inductive NodeCommand where
  | create (name : String) (kind : NodeKind) (text : String)
  | parse (name source : String)
  | query (name root selector : String)
  | child (name parent : String) (position : Nat)
  | firstChild (name parent : String)
  | nextSibling (name node : String)
  | parent (name node : String)
  | next (name node root : String)
  | skip (name node root : String)
  | queryAll (root selector : String)
  | descendants (root : String)
  | children (parent : String)
  | append (parent child : String)
  | detach (node : String)
  | clear (node : String)
  | isSame (first second : String)
  | type (node : String)
  | attributeValue (node name : String)
  | hasAttribute (node name : String)
  | attributes (node : String)
  | setAttribute (node name value : String)
  | removeAttribute (node name : String)
  | text (node : String)
  | setText (node text : String)
  | value (node : String)
  | setValue (node value : String)
  | innerHtml (node : String)
  | outerHtml (node : String)
  | tree (node : String)
  | listenerCount (node kind : String)
  | dispatch (node kind : String)
  | input (node value : String)
  | click (node : String)

/-- These commands bind trees to states, emit hooks and drive hosts. -/
inductive HostCommand where
  | bind (name node state : String)
  | bindings (name : String)
  | disposeBindings (name : String)
  | dropBindings (name : String)
  | createEmitter (name : String)
  | copyEmitter (name emitter : String)
  | hookCount (emitter : String) (kind : HookKind)
  | emit (emitter : String) (kind : HookKind)
  | mount (host : String)
  | render (host : String)
  | destroy (host : String)
  | info (host : String)
  | setTemplate (host template : String)
  | drop (host : String)

/-- Objects of these kinds can be inspected. -/
inductive Inspected where
  | state
  | effect
  | node
  | emitter
  | host
deriving DecidableEq, Repr

/-- An effect may have a label, may wait for its first run, and may hold states. -/
structure EffectOptions where
  label : Option String := none
  isLazy : Bool := false
  captures : List String := []
deriving Repr

/-- A component has a state with methods, a template, hooks, and code that runs after rendering. -/
structure Component (Code : Type) where
  name : String
  selector : String
  initial : Value
  template : String
  methods : List (String × Code)
  hooks : List (HookKind × Code)
  rendered : Option Code

inductive Command where
  | log (value : Value)
  | value (value : Value)
  | argumentAt (position : Nat)
  | arguments
  | sum
  | fail (error : EvalError)
  | panic (payload : Option String)
  | branch (state key : String) (yes no : List Command)
  | cycle (bodies : List (List Command))
  | once (tag : String) (body : List Command)
  | untracked (body : List Command)
  | tell (level : Level) (text : String)
  | tellValue (level : Level) (text state key : String)
  | state (command : StateCommand)
  | method (state name : String) (body : List Command)
  | effect (command : EffectCommand)
  | createEffect (name : String) (body : List Command) (options : EffectOptions)
  | node (command : NodeCommand)
  | listen (node kind : String) (body : List Command)
  | host (command : HostCommand)
  | onHook (owner : String) (kind : HookKind) (body : List Command)
  | createHost (document : String) (component : Component (List Command))
  | inspect (kind : Inspected) (name : String)

/-- A script is run from its first command to its last. -/
abbrev Script := List Command

namespace HookKind

def name : HookKind → String
  | .init => "onInit"
  | .mount => "onMount"
  | .update => "onUpdate"
  | .destroy => "onDestroy"

end HookKind

namespace StateCommand

/-- This is the name of a command in scripts. -/
def name : StateCommand → String
  | .create .. => "state"
  | .createEmpty .. => "new_state"
  | .createFrom .. => "from_json"
  | .createForm .. => "from_form"
  | .readForm .. => "to_form"
  | .share .. => "alias"
  | .drop .. => "drop_state"
  | .isAlive .. => "alive"
  | .isSame .. => "same_state"
  | .identity .. => "state_id"
  | .get .. => "get"
  | .peek .. => "peek"
  | .contains .. => "contains"
  | .snapshot .. => "snapshot"
  | .set .. => "set"
  | .preset .. => "with"
  | .increase .. => "incr"
  | .setEvaluated .. => "set_expr"
  | .trackAll .. => "track_all"
  | .constantMethod .. => "with_method"
  | .hasMethod .. => "has_method"
  | .evaluate .. => "eval"
  | .evaluateText .. => "eval_str"
  | .evaluateStrictly .. => "eval_expr"
  | .interpolate .. => "interpolate"
  | .hasInterpolation .. => "has_interp"

end StateCommand

namespace EffectCommand

def name : EffectCommand → String
  | .run .. => "run"
  | .dispose .. => "dispose"
  | .info .. => "info"
  | .drop .. => "drop_effect"
  | .isSame .. => "same_effect"
  | .dependencies .. => "deps"
  | .active => "active"
  | .disposeActive => "dispose_active"
  | .createTarget .. => "target"
  | .track .. => "track"
  | .trigger .. => "trigger"
  | .release .. => "release"
  | .subscriberCount .. => "subs"
  | .hasTarget .. => "has_target"

end EffectCommand

namespace NodeCommand

def name : NodeCommand → String
  | .create .. => "node"
  | .parse .. => "parse"
  | .query .. => "query"
  | .child .. => "child"
  | .firstChild .. => "first_child"
  | .nextSibling .. => "next_sibling"
  | .parent .. => "parent"
  | .next .. => "next"
  | .skip .. => "skip"
  | .queryAll .. => "query_all"
  | .descendants .. => "descendants"
  | .children .. => "children"
  | .append .. => "append"
  | .detach .. => "detach"
  | .clear .. => "clear"
  | .isSame .. => "same"
  | .type .. => "type"
  | .attributeValue .. => "attr"
  | .hasAttribute .. => "has_attr"
  | .attributes .. => "attrs"
  | .setAttribute .. => "set_attr"
  | .removeAttribute .. => "remove_attr"
  | .text .. => "text"
  | .setText .. => "set_text"
  | .value .. => "val"
  | .setValue .. => "set_val"
  | .innerHtml .. => "inner"
  | .outerHtml .. => "outer"
  | .tree .. => "tree"
  | .listenerCount .. => "listeners"
  | .dispatch .. => "dispatch"
  | .input .. => "input"
  | .click .. => "click"

end NodeCommand

namespace HostCommand

def name : HostCommand → String
  | .bind .. => "bind"
  | .bindings .. => "bindings"
  | .disposeBindings .. => "dispose_bindings"
  | .dropBindings .. => "drop_bindings"
  | .createEmitter .. => "emitter"
  | .copyEmitter .. => "clone_emitter"
  | .hookCount .. => "hook_count"
  | .emit .. => "emit"
  | .mount .. => "mount"
  | .render .. => "render"
  | .destroy .. => "destroy"
  | .info .. => "host_info"
  | .setTemplate .. => "set_template"
  | .drop .. => "drop_host"

end HostCommand

namespace Command

def name : Command → String
  | .log .. => "log"
  | .value .. => "value"
  | .argumentAt .. => "arg"
  | .arguments => "args"
  | .sum => "sum"
  | .fail .. => "fail"
  | .panic .. => "panic"
  | .branch .. => "if"
  | .cycle .. => "cycle"
  | .once .. => "once"
  | .untracked .. => "untracked"
  | .tell .. => "tell"
  | .tellValue .. => "tell_value"
  | .state command => command.name
  | .method .. => "method"
  | .effect command => command.name
  | .createEffect .. => "effect"
  | .node command => command.name
  | .listen .. => "listen"
  | .host command => command.name
  | .onHook .. => "on"
  | .createHost .. => "host"
  | .inspect .. => "debug"

/-- A block leaves the report to the commands inside it, unless it fails. -/
def isBlock : Command → Bool
  | .branch .. => true
  | .cycle .. => true
  | .once .. => true
  | .untracked .. => true
  | _ => false

end Command

end LiveMarkup
