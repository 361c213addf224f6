import LiveMarkup.Value.Coercion

/-
This file gives the meaning of the operators, of members and of positions.
-/

namespace LiveMarkup.Value

/-- Numbers are compared as binary64 numbers, and all other values by structure. -/
def strictEquals : Value → Value → Bool
  | .number first, .number second => first.toBinary.equal second.toBinary
  | first, second => first.same second

def isCollection : Value → Bool
  | .array _ => true
  | .object _ => true
  | _ => false

/-- Null equals only itself. Text and numbers are compared after conversion. -/
def looseEquals : Value → Value → Bool
  | .null, .null => true
  | .null, _ => false
  | _, .null => false
  | .string first, .string second => first == second
  | first, second =>
      if first.isCollection || second.isCollection then first.strictEquals second
      else match first.toNumber?, second.toNumber? with
        | some a, some b => a.equal b
        | _, _ => false

/-- Two texts are ordered by code point, and other values as numbers if both convert. -/
def order? : Value → Value → Option Ordering
  | .string first, .string second => some (compare first second)
  | first, second =>
      match first.toNumber?, second.toNumber? with
      | some a, some b => a.compare? b
      | _, _ => none

def isString : Value → Bool
  | .string _ => true
  | _ => false

def arithmetic (operator : BinaryOperator) (compute : Binary64 → Binary64 → Binary64)
    (left right : Value) : Except EvalError Value :=
  match left.toNumber?, right.toNumber? with
  | some a, some b => ofBinary (compute a b)
  | _, _ => .error (.type (.operands operator left.kind right.kind))

/-- This function applies an operator to two values that are already computed. -/
def applyBinary (operator : BinaryOperator) (left right : Value) : Except EvalError Value :=
  match operator with
  | .add =>
      if left.isString || right.isString then .ok (.string (left.display ++ right.display))
      else arithmetic .add Binary64.add left right
  | .sub => arithmetic .sub Binary64.sub left right
  | .mul => arithmetic .mul Binary64.mul left right
  | .div => arithmetic .div Binary64.div left right
  | .rem => arithmetic .rem Binary64.rem left right
  | .lt => .ok (.bool ((left.order? right).any Ordering.isLT))
  | .le => .ok (.bool ((left.order? right).any Ordering.isLE))
  | .gt => .ok (.bool ((left.order? right).any Ordering.isGT))
  | .ge => .ok (.bool ((left.order? right).any Ordering.isGE))
  | .eq => .ok (.bool (left.looseEquals right))
  | .ne => .ok (.bool !(left.looseEquals right))
  | .strictEq => .ok (.bool (left.strictEquals right))
  | .strictNe => .ok (.bool !(left.strictEquals right))
  | .and => .ok (if left.isTruthy then right else left)
  | .or => .ok (if left.isTruthy then left else right)

def applyUnary (operator : UnaryOperator) (operand : Value) : Except EvalError Value :=
  match operator with
  | .not => .ok (.bool !operand.isTruthy)
  | .neg => convert operand Binary64.neg
  | .plus => convert operand id
where
  convert (operand : Value) (compute : Binary64 → Binary64) : Except EvalError Value :=
    match operand.toNumber? with
    | some converted => ofBinary (compute converted)
    | none => .error (.type (.conversion operand.kind))

/-- An absent property is null. Texts and arrays have a length. -/
def property (object : Value) (name : String) : Except EvalError Value :=
  match object with
  | .null => .error (.type (.propertyOfNull name))
  | .object fields => .ok ((Assoc.get? fields name).getD .null)
  | .string text => .ok (if name = "length" then .count text.length else .null)
  | .array items => .ok (if name = "length" then .count items.length else .null)
  | _ => .ok .null

/-- A position outside a text or an array gives null. -/
def itemAt (object position : Value) : Except EvalError Value :=
  match object, position with
  | .null, _ => .error (.type .indexOfNull)
  | .array items, .number index =>
      .ok ((index.position?.bind fun place => items[place]?).getD .null)
  | .string text, .number index =>
      .ok (((index.position?.bind fun place => text.toList[place]?).map
        fun c => Value.string (String.singleton c)).getD .null)
  | object, .string key => object.property key
  | .object fields, key => (Value.object fields).property key.display
  | _, _ => .ok .null

end LiveMarkup.Value
