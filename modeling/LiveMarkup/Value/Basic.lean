import LiveMarkup.Dictionary
import LiveMarkup.Number.Binary64

/-
This file defines the values that states hold and expressions compute.
-/

namespace LiveMarkup

/-- An integer lies between `-2 ^ 63` and `2 ^ 64`. All other numbers are binary64. -/
inductive Number where
  | integer (value : Int)
  | real (value : Binary64)
deriving DecidableEq, Repr, Inhabited

/-- The fields of an object are kept in the order of their keys. -/
inductive Value where
  | null
  | bool (value : Bool)
  | number (value : Number)
  | string (value : String)
  | array (items : List Value)
  | object (fields : List (String × Value))
deriving Repr, Inhabited

/-- These are the names by which errors speak of values. -/
inductive Kind where
  | null
  | boolean
  | number
  | string
  | array
  | object
deriving DecidableEq, Repr

namespace Kind

def name : Kind → String
  | .null => "null"
  | .boolean => "boolean"
  | .number => "number"
  | .string => "string"
  | .array => "array"
  | .object => "object"

end Kind

namespace Number

def ofNat (value : Nat) : Number := .integer value

/-- An integer outside the exact range goes to the nearest binary64 number. -/
def toBinary : Number → Binary64
  | .integer value => .ofInt value
  | .real value => value

/-- An integer differs from every real, also from the real of the same value. -/
def same : Number → Number → Bool
  | .integer first, .integer second => first == second
  | .real first, .real second => first.equal second
  | _, _ => false

/-- This function gives an integer that has 64 bits with sign. -/
def signed64? : Number → Option Int
  | .integer value =>
      if -(powerOfTwo 63 : Int) ≤ value ∧ value < powerOfTwo 63 then some value else none
  | .real _ => none

/-- Only an integer that is not negative can count positions. -/
def position? : Number → Option Nat
  | .integer value => if 0 ≤ value then some value.toNat else none
  | .real _ => none

end Number

namespace Value

def integer (value : Int) : Value := .number (.integer value)

def count (value : Nat) : Value := .integer value

def kind : Value → Kind
  | .null => .null
  | .bool _ => .boolean
  | .number _ => .number
  | .string _ => .string
  | .array _ => .array
  | .object _ => .object

mutual

/-- Two values are the same when they have the same structure and the same leaves. -/
def same : Value → Value → Bool
  | .null, .null => true
  | .bool first, .bool second => first == second
  | .number first, .number second => first.same second
  | .string first, .string second => first == second
  | .array first, .array second => sameItems first second
  | .object first, .object second => sameFields first second
  | _, _ => false

def sameItems : List Value → List Value → Bool
  | [], [] => true
  | first :: firsts, second :: seconds => same first second && sameItems firsts seconds
  | _, _ => false

def sameFields : List (String × Value) → List (String × Value) → Bool
  | [], [] => true
  | (firstKey, first) :: firsts, (secondKey, second) :: seconds =>
      firstKey == secondKey && same first second && sameFields firsts seconds
  | _, _ => false

end

end Value

end LiveMarkup
