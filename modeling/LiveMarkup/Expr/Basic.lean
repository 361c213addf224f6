import LiveMarkup.Number.Binary64

/-
This file defines the expressions that templates contain.
-/

namespace LiveMarkup

inductive UnaryOperator where
  | not
  | neg
  | plus
deriving DecidableEq, Repr

inductive BinaryOperator where
  | add
  | sub
  | mul
  | div
  | rem
  | lt
  | le
  | gt
  | ge
  | eq
  | ne
  | strictEq
  | strictNe
  | and
  | or
deriving DecidableEq, Repr

namespace UnaryOperator

def symbol : UnaryOperator → String
  | .not => "!"
  | .neg => "-"
  | .plus => "+"

end UnaryOperator

namespace BinaryOperator

def symbol : BinaryOperator → String
  | .add => "+"
  | .sub => "-"
  | .mul => "*"
  | .div => "/"
  | .rem => "%"
  | .lt => "<"
  | .le => "<="
  | .gt => ">"
  | .ge => ">="
  | .eq => "=="
  | .ne => "!="
  | .strictEq => "==="
  | .strictNe => "!=="
  | .and => "&&"
  | .or => "||"

/-- These are all operators, the longer symbols before those that begin them. -/
def all : List BinaryOperator :=
  [.or, .and, .strictEq, .strictNe, .eq, .ne, .le, .ge, .lt, .gt, .add, .sub, .mul, .div, .rem]

theorem mem_all (operator : BinaryOperator) : operator ∈ all := by
  cases operator <;> decide

def ofSymbol? (symbol : String) : Option BinaryOperator :=
  all.find? fun operator => operator.symbol == symbol

/-- An operator of a higher level binds its operands first. -/
def level : BinaryOperator → Nat
  | .or => 0
  | .and => 1
  | .eq | .ne | .strictEq | .strictNe => 2
  | .lt | .le | .gt | .ge => 3
  | .add | .sub => 4
  | .mul | .div | .rem => 5

end BinaryOperator

/-- A call names a method of the state. All other forms compute plain values. -/
inductive Expr where
  | number (value : Binary64)
  | string (value : String)
  | bool (value : Bool)
  | null
  | ident (name : String)
  | member (object : Expr) (property : String)
  | index (object : Expr) (position : Expr)
  | call (name : String) (arguments : List Expr)
  | unary (operator : UnaryOperator) (operand : Expr)
  | binary (operator : BinaryOperator) (left right : Expr)
  | conditional (test yes no : Expr)
deriving Repr, Inhabited

end LiveMarkup
