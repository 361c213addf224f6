import LiveMarkup.Expr.Reading
import LiveMarkup.Value.Operation

/-
This file evaluates expressions in a scope that answers for names and methods.
-/

namespace LiveMarkup

/-- A scope looks names up and calls methods. Both may have effects and may fail. -/
structure Scope (M : Type → Type) where
  lookup : String → M Value
  call : String → List Value → M Value

namespace Expr

variable {M : Type → Type} [Monad M] [MonadExceptOf EvalError M]

/-- This function raises the failure of a pure computation. -/
def raise {A : Type} : Except EvalError A → M A
  | .ok value => pure value
  | .error error => throw error

mutual

/-- Operands are evaluated from left to right. A logical operator may leave its right side out. -/
def eval (scope : Scope M) : Expr → M Value
  | .number value => raise (Value.ofBinary value)
  | .string value => pure (.string value)
  | .bool value => pure (.bool value)
  | .null => pure .null
  | .ident name => scope.lookup name
  | .member object property => do
      let object ← eval scope object
      raise (object.property property)
  | .index object position => do
      let object ← eval scope object
      let position ← eval scope position
      raise (object.itemAt position)
  | .call name arguments => do
      let arguments ← evalAll scope arguments
      scope.call name arguments
  | .unary operator operand => do
      let operand ← eval scope operand
      raise (Value.applyUnary operator operand)
  | .binary operator left right => do
      let left ← eval scope left
      if operator = .and ∧ ¬ left.isTruthy then pure left
      else if operator = .or ∧ left.isTruthy then pure left
      else do
        let right ← eval scope right
        raise (Value.applyBinary operator left right)
  | .conditional test yes no => do
      let test ← eval scope test
      if test.isTruthy then eval scope yes else eval scope no

def evalAll (scope : Scope M) : List Expr → M (List Value)
  | [] => pure []
  | first :: rest => do
      let value ← eval scope first
      let values ← evalAll scope rest
      pure (value :: values)

end

end Expr

/-- The fields of a plain object form a scope without methods. -/
def Scope.ofFields (fields : Dictionary Value) : Scope (Except EvalError) where
  lookup name :=
    match fields.get? name with
    | some value => .ok value
    | none => .error (.unknownIdentifier name)
  call name _ := .error (.unknownMethod name)

namespace Expr

/-- This function parses a source text and evaluates it on plain fields. -/
def evalSource (fields : Dictionary Value) (source : String) : Except EvalError Value := do
  let expr ← parse source
  eval (Scope.ofFields fields) expr

end Expr

end LiveMarkup
