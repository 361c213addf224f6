import LiveMarkup.Number.Shortest
import LiveMarkup.Text.Quoted
import LiveMarkup.Value.Basic

/-
This file writes values with their kinds, for inspection.
-/

namespace LiveMarkup

/-- This function writes parts between brackets, separated by commas. -/
def bracketed (opening : String) (parts : List String) (closing : String) : String :=
  opening ++ String.intercalate ", " parts ++ closing

/-- A record is written as its name and its fields. -/
def recordText (name : String) (fields : List (String × String)) : String :=
  name ++ bracketed " \x7b " (fields.map fun field => field.1 ++ ": " ++ field.2) " \x7d"

namespace Number

def literal : Number → String
  | .integer value => toString value
  | .real value => value.literal

end Number

namespace Value

mutual

def inspect : Value → String
  | .null => "Null"
  | .bool true => "Bool(true)"
  | .bool false => "Bool(false)"
  | .number value => "Number(" ++ value.literal ++ ")"
  | .string value => "String(" ++ Text.quoted value ++ ")"
  | .array items => "Array " ++ bracketed "[" (inspectItems items) "]"
  | .object fields => "Object " ++ bracketed "\x7b" (inspectFields fields) "\x7d"

def inspectItems : List Value → List String
  | [] => []
  | item :: rest => inspect item :: inspectItems rest

def inspectFields : List (String × Value) → List String
  | [] => []
  | (key, item) :: rest => (Text.quoted key ++ ": " ++ inspect item) :: inspectFields rest

end

/-- An absent value and a present one are told apart. -/
def inspectOption : Option Value → String
  | some value => "Some(" ++ value.inspect ++ ")"
  | none => "None"

end Value

end LiveMarkup
