import LiveMarkup.Value.Debug
import LiveMarkup.World.Hosts

/-
This file writes what scripts learn about objects as values and as text.
-/

namespace LiveMarkup

namespace Value

/-- This value stands for no value where null would be a value. -/
def absent : Value := .object [("$none", .bool true)]

def ofOption (value : Option Value) : Value := value.getD absent

def ofText? (text : Option String) : Value := ofOption (text.map .string)

def strings (texts : List String) : Value := .array (texts.map .string)

end Value

namespace TemplateError

/-- An error that a script survives becomes a value. -/
def toValue (error : TemplateError) : Value :=
  .object [("error", .string "Template"), ("message", .string error.message)]

end TemplateError

namespace MountError

def kindName : MountError → String
  | .mountPointNotFound _ => "MountPointNotFound"
  | .template _ => "Template"

def toValue (error : MountError) : Value :=
  .object [("error", .string error.kindName), ("message", .string error.message)]

end MountError

namespace Markup

mutual

def toValue : Markup → Value
  | .text content => .array [.string "#text", .string content]
  | .comment content => .array [.string "#comment", .string content]
  | .element tag attributes children =>
      .array [.string tag,
        .array (attributes.map fun entry => .array [.string entry.1, .string entry.2]),
        .array (allToValues children)]

def allToValues : List Markup → List Value
  | [] => []
  | first :: rest => toValue first :: allToValues rest

end

end Markup

namespace World

/-- A short description tells nodes apart by their kind and content. -/
def describe (world : World) (node : NodeId) : String :=
  match world.forest.content? node with
  | some .fragment => "#fragment"
  | some (.element element) => "<" ++ element.tag ++ ">"
  | some (.text content) => "#text:" ++ content
  | some (.comment content) => "#comment:" ++ content
  | none => ""

def describeAll (world : World) (nodes : List NodeId) : Value :=
  .strings (nodes.map world.describe)

def treeValue (world : World) (node : NodeId) : Value :=
  if world.forest.isFragment node then
    .array [.string "#fragment", .array (Markup.allToValues (world.forest.innerMarkup node))]
  else ((world.forest.markup node).head?.map Markup.toValue).getD .null

def nodeTypeName (world : World) (node : NodeId) : String :=
  match world.forest.content? node with
  | some .fragment => "Fragment"
  | some (.element _) => "Element"
  | some (.text _) => "Text"
  | some (.comment _) => "Comment"
  | none => ""

def typeValue (world : World) (node : NodeId) : Value :=
  .array [.string (world.nodeTypeName node), .bool (world.forest.element? node).isSome,
    .bool (world.forest.isValueBearing node),
    ((world.forest.tag? node).map Value.string).getD .null]

def effectValue (world : World) (id : EffectId) : Value :=
  match world.graph.effect? id with
  | none => .null
  | some effect =>
      .object [("disposed", .bool effect.disposed), ("id", .count (number id)),
        ("label", .string effect.label), ("runs", .count effect.runs)]

def dependencyValue (dependency : Dependency) : Value :=
  .array [.count (number dependency.target),
    match dependency.key with
    | .named name => .string name
    | .any => .null]

def dependenciesValue (world : World) (id : EffectId) : Value :=
  match world.graph.effect? id with
  | none => .null
  | some effect => .array (effect.dependencies.map dependencyValue)

def activeValue (world : World) : Value :=
  match world.graph.active? with
  | none => .null
  | some id =>
      .array [.count (number id), .string (((world.graph.effect? id).map Effect.label).getD "")]

def bindingsValue (world : World) (bindings : Bindings) : Value :=
  .object [("effects", .array (bindings.effects.map world.effectValue)),
    ("empty", .bool bindings.isEmpty), ("len", .count bindings.effects.length),
    ("listeners", .count bindings.listeners)]

def hostValue (world : World) (id : HostId) : Value :=
  match world.host? id with
  | none => .null
  | some host =>
      .object [("bindings", .count host.bindings.effects.length),
        ("html", .string (world.forest.innerHtml host.container)),
        ("mounted", .bool host.mounted), ("renders", .count host.renders)]

def boolText (value : Bool) : String := if value then "true" else "false"

def listText (parts : List String) : String := bracketed "[" parts "]"

/-- These are the names of the methods in the order of code points. -/
def methodNames (methods : Dictionary Method) : List String :=
  (Dictionary.sorted methods).map Prod.fst

def inspectState (world : World) (id : TargetId) : String :=
  match world.store? id with
  | none => ""
  | some store =>
      recordText "State" [("id", toString (number id)),
        ("values", bracketed "\x7b" (Value.inspectFields store.values) "\x7d"),
        ("methods", listText ((methodNames store.methods).map Text.quoted))]

def inspectEffect (world : World) (id : EffectId) : String :=
  match world.graph.effect? id with
  | none => ""
  | some effect =>
      recordText "Effect" [("id", toString (number id)), ("label", Text.quoted effect.label),
        ("runs", toString effect.runs), ("disposed", boolText effect.disposed)]

def inspectAttribute (entry : String × String) : String :=
  "(" ++ Text.quoted entry.1 ++ ", " ++ Text.quoted entry.2 ++ ")"

def inspectNode (world : World) (node : NodeId) : String :=
  let identity := ("id", toString (number node))
  match world.forest.content? node with
  | none => ""
  | some .fragment => recordText "Fragment" [identity]
  | some (.element element) =>
      recordText "Element" [identity, ("tag", Text.quoted element.tag),
        ("attributes", listText (element.attributes.map inspectAttribute))]
  | some (.text content) => recordText "Text" [identity, ("content", Text.quoted content)]
  | some (.comment content) => recordText "Comment" [identity, ("content", Text.quoted content)]

/-- Only kinds with hooks are shown, in the order of their names. -/
def inspectHooks (hooks : Hooks) : String :=
  let kinds := [HookKind.destroy, .init, .mount, .update].filter fun kind => hooks.count kind ≠ 0
  recordText "HookEmitter" [("hooks", listText (kinds.map fun kind =>
    "(" ++ Text.quoted kind.name ++ ", " ++ toString (hooks.count kind) ++ ")"))]

def inspectHost (world : World) (id : HostId) : String :=
  match world.host? id with
  | none => ""
  | some host =>
      recordText "ComponentHost" [("selector", Text.quoted host.component.selector),
        ("mounted", boolText host.mounted), ("renders", toString host.renders),
        ("bindings", toString host.bindings.effects.length)]

end World

end LiveMarkup
