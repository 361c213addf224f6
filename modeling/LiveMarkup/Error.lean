import LiveMarkup.Expr.Basic
import LiveMarkup.Value.Basic

/-
This file names the causes of failure and gives each its message.
-/

namespace LiveMarkup

/-- These are the ways in which a value can have the wrong type. -/
inductive TypeFault where
  | notFinite (shown : String)
  | operands (operator : BinaryOperator) (left right : Kind)
  | conversion (operand : Kind)
  | propertyOfNull (property : String)
  | indexOfNull
  | initializer (given : Kind)
  | stateGone
  | unknownName (name : String)
  | other (text : String)
deriving DecidableEq, Repr

/-- Evaluation fails for one of these causes. -/
inductive EvalError where
  | unknownIdentifier (name : String)
  | unknownMethod (name : String)
  | notAValue (name : String)
  | type (fault : TypeFault)
  | method (name : String) (reason : String)
  | malformed (source : String)
deriving DecidableEq, Repr, Inhabited

/-- A template fails only at a closing tag that does not fit the innermost open element. -/
inductive TemplateError where
  | unexpectedClosing (tag : String) (inside : Option String)
deriving DecidableEq, Repr

inductive MountError where
  | mountPointNotFound (selector : String)
  | template (error : TemplateError)
deriving DecidableEq, Repr

namespace TypeFault

def message : TypeFault → String
  | .notFinite shown => "result is not a finite number (" ++ shown ++ ")"
  | .operands operator left right =>
      "cannot apply `" ++ operator.symbol ++ "` to " ++ left.name ++ " and " ++ right.name
  | .conversion operand => "cannot convert " ++ operand.name ++ " to a number"
  | .propertyOfNull property => "cannot read property `" ++ property ++ "` of null"
  | .indexOfNull => "cannot index into null"
  | .initializer given => "state initializer must be an object, got " ++ given.name
  | .stateGone => "state is gone"
  | .unknownName name => "`" ++ name ++ "` names nothing"
  | .other text => text

end TypeFault

namespace EvalError

def message : EvalError → String
  | .unknownIdentifier name => "`" ++ name ++ "` is not defined"
  | .unknownMethod name => "`" ++ name ++ "` is not a method"
  | .notAValue name => "`" ++ name ++ "` is a method and cannot be used as a value"
  | .type fault => "type error: " ++ fault.message
  | .method name reason => "method `" ++ name ++ "` failed: " ++ reason
  | .malformed source => "syntax error in expression `" ++ source ++ "`"

/-- A failure inside a method is reported under the method's name, once. -/
def insideMethod (name : String) : EvalError → EvalError
  | .method inner reason => .method inner reason
  | other => .method name other.message

end EvalError

namespace TemplateError

def message : TemplateError → String
  | .unexpectedClosing tag (some inside) =>
      "template error: unexpected closing tag </" ++ tag ++ "> while <" ++ inside ++ "> is open"
  | .unexpectedClosing tag none => "template error: unexpected closing tag </" ++ tag ++ ">"

end TemplateError

namespace MountError

def message : MountError → String
  | .mountPointNotFound selector => "mount point \"" ++ selector ++ "\" not found"
  | .template error => error.message

end MountError

end LiveMarkup
