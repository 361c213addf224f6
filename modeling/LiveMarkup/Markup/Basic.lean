import LiveMarkup.Dictionary
import LiveMarkup.Text.Entity

/-
This file defines markup as trees and writes it as text.
-/

namespace LiveMarkup

/-- A piece of markup is a text, a comment or an element with its content. -/
inductive Markup where
  | text (content : String)
  | comment (content : String)
  | element (tag : String) (attributes : List (String × String)) (children : List Markup)
deriving Repr, Inhabited

namespace Markup

/-- Elements with these tags have no content and no closing tag. -/
def voidTags : List String :=
  ["area", "base", "br", "col", "embed", "hr", "img", "input", "link", "meta", "source", "track",
    "wbr"]

def isVoid (tag : String) : Bool := voidTags.contains tag

/-- An attribute without a value is written as its bare name. -/
def printAttribute (entry : String × String) : List Char :=
  ' ' :: entry.1.toList ++
    (if entry.2 = "" then []
     else '=' :: '"' :: Text.escapeAttribute entry.2.toList ++ ['"'])

def printOpening (tag : String) (attributes : List (String × String)) : List Char :=
  '<' :: tag.toList ++ attributes.flatMap printAttribute ++ ['>']

def printClosing (tag : String) : List Char := '<' :: '/' :: tag.toList ++ ['>']

mutual

/-- This function writes a piece of markup with its content. -/
def print : Markup → List Char
  | .text content => Text.escapeText content.toList
  | .comment content => ['<', '!', '-', '-'] ++ content.toList ++ ['-', '-', '>']
  | .element tag attributes children =>
      if isVoid tag then printOpening tag attributes
      else printOpening tag attributes ++ printAll children ++ printClosing tag

def printAll : List Markup → List Char
  | [] => []
  | first :: rest => print first ++ printAll rest

end

end Markup

end LiveMarkup
