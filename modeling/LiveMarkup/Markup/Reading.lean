import LiveMarkup.Error
import LiveMarkup.Markup.Basic
import LiveMarkup.Markup.Token

/-
This file builds markup from the tokens of a template with a stack of open elements.
-/

namespace LiveMarkup

namespace Markup

def lower (name : List Char) : String := String.ofList (name.map Char.toLower)

/-- Of two attributes with one name the first counts. -/
def addAttribute (attributes : List (String × String))
    (entry : List Char × Option (List Char)) : List (String × String) :=
  let name := lower entry.1
  if Assoc.contains attributes name then attributes
  else attributes ++ [(name, String.ofList (Text.decodeEntities (entry.2.getD [])))]

def attributesOf (attributes : List (List Char × Option (List Char))) : List (String × String) :=
  attributes.foldl addAttribute []

/-- Text that follows text becomes part of it. -/
def addText (children : List Markup) (content : String) : List Markup :=
  match children.getLast? with
  | some (.text before) => children.dropLast ++ [.text (before ++ content)]
  | _ => children ++ [.text content]

/-- An open element still collects its content. -/
structure OpenElement where
  tag : String
  attributes : List (String × String)
  children : List Markup
deriving Repr

/-- The open elements are listed from the innermost outwards. -/
structure Builder where
  roots : List Markup := []
  opened : List OpenElement := []
deriving Repr

namespace Builder

/-- This function changes the content of the innermost open element. -/
def updateChildren (builder : Builder) (change : List Markup → List Markup) : Builder :=
  match builder.opened with
  | [] => { builder with roots := change builder.roots }
  | inner :: outer =>
      { builder with opened := { inner with children := change inner.children } :: outer }

/-- This function closes the innermost open element. -/
def close (builder : Builder) : Builder :=
  match builder.opened with
  | [] => builder
  | inner :: outer =>
      { builder with opened := outer }.updateChildren
        (· ++ [Markup.element inner.tag inner.attributes inner.children])

def closing (builder : Builder) (tag : String) : Except TemplateError Builder :=
  if isVoid tag then .ok builder
  else match builder.opened with
    | [] => .error (.unexpectedClosing tag none)
    | inner :: _ =>
        if inner.tag = tag then .ok builder.close
        else .error (.unexpectedClosing tag (some inner.tag))

def opening (builder : Builder) (tag : String) (attributes : List (String × String))
    (selfClosing : Bool) : Builder :=
  if selfClosing || isVoid tag then builder.updateChildren (· ++ [Markup.element tag attributes []])
  else { builder with opened := ⟨tag, attributes, []⟩ :: builder.opened }

def step (builder : Builder) : Token → Except TemplateError Builder
  | .comment body => .ok (builder.updateChildren (· ++ [Markup.comment (String.ofList body)]))
  | .declaration => .ok builder
  | .closing tag => builder.closing (lower tag)
  | .opening tag attributes selfClosing =>
      .ok (builder.opening (lower tag) (attributesOf attributes) selfClosing)
  | .text content =>
      .ok (builder.updateChildren (addText · (String.ofList (Text.decodeEntities content))))

/-- A run stops at the first token that does not fit, with what was built before it. -/
def run (builder : Builder) : List Token → Builder × Option TemplateError
  | [] => (builder, none)
  | token :: rest =>
      match builder.step token with
      | .ok next => run next rest
      | .error error => (builder, some error)

/-- This function closes the elements that are still open. -/
def finish (builder : Builder) : List Markup :=
  (builder.opened.foldl (fun current _ => current.close) builder).roots

end Builder

/-- A reading gives the markup that was built, the number of elements left open, and the error. -/
structure Reading where
  trees : List Markup
  unclosed : Nat
  error : Option TemplateError
deriving Repr

def read (source : String) : Reading :=
  let (builder, error) := Builder.run {} (Token.scan source.toList)
  { trees := builder.finish, unclosed := builder.opened.length, error }

/-- This function parses a whole template. -/
def parse (source : String) : Except TemplateError (List Markup) :=
  let reading := read source
  match reading.error with
  | some error => .error error
  | none => .ok reading.trees

end Markup

end LiveMarkup
