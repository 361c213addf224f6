import LiveMarkup.Forest.Order

/-
This file reads and changes what single nodes hold: attributes, text, values and listeners.
-/

namespace LiveMarkup

/-- Elements with these tags carry a value. -/
def valueTags : List String := ["input", "textarea", "select"]

namespace Forest

variable {Handler : Type}

def tag? (forest : Forest Handler) (id : NodeId) : Option String :=
  (forest.element? id).map Element.tag

def attributes (forest : Forest Handler) (id : NodeId) : Dictionary String :=
  match forest.element? id with
  | some element => element.attributes
  | none => []

def attribute? (forest : Forest Handler) (id : NodeId) (name : String) : Option String :=
  (forest.attributes id).get? name

/-- This function changes an element and leaves all other nodes alone. -/
def modifyElement (forest : Forest Handler) (id : NodeId)
    (change : Element Handler → Element Handler) : Forest Handler :=
  match forest.element? id with
  | some element => forest.setContent id (.element (change element))
  | none => forest

def setAttribute (forest : Forest Handler) (id : NodeId) (name value : String) : Forest Handler :=
  forest.modifyElement id fun element =>
    { element with attributes := element.attributes.put name value }

def removeAttribute (forest : Forest Handler) (id : NodeId) (name : String) : Forest Handler :=
  forest.modifyElement id fun element =>
    { element with attributes := element.attributes.erase name }

def ownText? (forest : Forest Handler) (id : NodeId) : Option String :=
  match forest.content? id with
  | some (.text content) => some content
  | _ => none

/-- The text of an element is the text of the nodes below it, in order. -/
def textContent (forest : Forest Handler) (id : NodeId) : String :=
  match forest.content? id with
  | some (.text content) => content
  | some (.comment content) => content
  | _ => String.join ((forest.descendants id).filterMap forest.ownText?)

/-- An element gets a single text node as its content, or none for the empty text. -/
def setTextContent (forest : Forest Handler) (id : NodeId) (content : String) : Forest Handler :=
  match forest.content? id with
  | none => forest
  | some (.text _) => forest.setContent id (.text content)
  | some (.comment _) => forest
  | some _ =>
      let cleared := forest.clear id
      if content = "" then cleared
      else
        let (child, grown) := cleared.create (.text content)
        grown.append id child

def isValueBearing (forest : Forest Handler) (id : NodeId) : Bool :=
  (forest.tag? id).any valueTags.contains

/-- Until a value is set, the value is that of the attribute. -/
def value (forest : Forest Handler) (id : NodeId) : String :=
  match forest.element? id with
  | some element => element.value.getD ((element.attributes.get? "value").getD "")
  | none => ""

def setValue (forest : Forest Handler) (id : NodeId) (value : String) : Forest Handler :=
  forest.modifyElement id fun element => { element with value := some value }

/-- Only elements take listeners. -/
def listen (forest : Forest Handler) (id : NodeId) (kind : String) (handler : Handler) :
    Forest Handler :=
  forest.modifyElement id fun element =>
    { element with listeners := element.listeners ++ [(kind, handler)] }

/-- These are the handlers for one kind of event in the order of their registration. -/
def listenersFor (forest : Forest Handler) (id : NodeId) (kind : String) : List Handler :=
  match forest.element? id with
  | some element => (element.listeners.filter fun entry => entry.1 = kind).map Prod.snd
  | none => []

end Forest

end LiveMarkup
