import LiveMarkup.Error
import LiveMarkup.Number.Reading
import LiveMarkup.Number.Shortest
import LiveMarkup.Text.Blank
import LiveMarkup.Value.Basic

/-
This file turns values into text, truth values and numbers, and numbers into values.
-/

namespace LiveMarkup

namespace Number

/-- Every number is shown as the binary64 number nearest to it. -/
def display (number : Number) : String := number.toBinary.display

end Number

namespace Value

mutual

/-- This function gives the text that a template shows for a value. -/
def display : Value → String
  | .null => "null"
  | .bool true => "true"
  | .bool false => "false"
  | .number value => value.display
  | .string value => value
  | .array items => String.intercalate "," (displayItems items)
  | .object _ => "[object Object]"

/-- An item that is null leaves its place empty. -/
def displayItems : List Value → List String
  | [] => []
  | .null :: rest => "" :: displayItems rest
  | item :: rest => display item :: displayItems rest

end

def isTruthy : Value → Bool
  | .null => false
  | .bool value => value
  | .number value => !(value.toBinary.equal .zero) && value.toBinary != .nan
  | .string value => value != ""
  | .array _ => true
  | .object _ => true

/-- Blank text counts as zero. Other text counts if it reads as a finite number. -/
def textToNumber? (text : String) : Option Binary64 :=
  let trimmed := Text.trim text.toList
  if trimmed.isEmpty then some .zero else (Binary64.read? trimmed).filter Binary64.isFinite

def toNumber? : Value → Option Binary64
  | .null => some .zero
  | .bool true => some .one
  | .bool false => some .zero
  | .number value => some value.toBinary
  | .string value => textToNumber? value
  | .array _ => none
  | .object _ => none

/-- A result that is integral and below `9 * 10 ^ 15` becomes an integer. Others must be finite. -/
def ofBinary (number : Binary64) : Except EvalError Value :=
  if number.isIntegral ∧ number.isBelow (9 * powerOfTen 15) then .ok (.integer number.truncate)
  else if number.isFinite then .ok (.number (.real number))
  else .error (.type (.notFinite number.display))

/-- A numeric input holds a number if its text is not blank and reads as one, else the text itself. -/
def ofNumericInput (raw : String) : Value :=
  let trimmed := Text.trim raw.toList
  if trimmed.isEmpty then .string raw
  else match (Binary64.read? trimmed).map ofBinary with
    | some (.ok value) => value
    | _ => .string raw

end Value

end LiveMarkup
