import TreeScript.Diagnostic
import TreeScript.Value

/-!
# Runtime errors

What can go wrong while a script runs, and the diagnostic it leads to.
-/

namespace TreeScript

/-- **What can go wrong** while a script runs. -/
inductive RuntimeFault where
  /-- A binary operator was given operands it is not defined for. -/
  | typeMismatch (operator expected : String) (lhs rhs : ValueType)
  /-- A unary operator was given an operand that is not a number. -/
  | unaryTypeMismatch (operator : String) (operand : ValueType)
  /-- A name is defined in no scope. -/
  | undefinedVariable (name : String)
  /-- The tree has a form that reading never gives it. -/
  | internal (message : String)
deriving Repr, DecidableEq, Inhabited

namespace RuntimeFault

/-- What the user is told. -/
def message : RuntimeFault → String
  | typeMismatch operator expected lhs rhs =>
    "operands of `" ++ operator ++ "` must be " ++ expected ++ ", but got "
      ++ lhs.name ++ " and " ++ rhs.name
  | unaryTypeMismatch operator operand =>
    "operand of `" ++ operator ++ "` must be a number, but got "
      ++ operand.name
  | undefinedVariable name => "undefined variable `" ++ name ++ "`"
  | internal message => message

/-- The code of the fault. -/
def code : RuntimeFault → String
  | typeMismatch _ _ _ _ | unaryTypeMismatch _ _ => "E201"
  | undefinedVariable _ => "E202"
  | internal _ => "E900"

/-- The family of faults it belongs to. -/
def kind : RuntimeFault → FaultKind
  | typeMismatch _ _ _ _ | unaryTypeMismatch _ _ => .typing
  | undefinedVariable _ => .semantic
  | internal _ => .internal

/-- A fault of the interpreter itself is fatal. -/
def severity : RuntimeFault → Severity
  | internal _ => .fatal
  | _ => .error

end RuntimeFault

/-- **A runtime error**: a fault and its place. -/
structure RuntimeError where
  /-- Where the fault lies. -/
  span : Span
  /-- What went wrong there. -/
  fault : RuntimeFault
deriving Repr, DecidableEq, Inhabited

/-- The diagnostic of a runtime error. -/
def RuntimeError.diagnostic (e : RuntimeError) : Diagnostic where
  kind := e.fault.kind
  severity := e.fault.severity
  span := e.span
  message := e.fault.message
  code := some e.fault.code

end TreeScript
