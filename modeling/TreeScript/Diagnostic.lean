import TreeScript.Span

/-!
# Diagnostics

A diagnostic is what the user is told about a fault: which family of faults it
belongs to, how severe it is, where it lies, a message and, for the faults that
have one, a code.
-/

namespace TreeScript

/-- **The family of faults** a diagnostic belongs to. -/
inductive FaultKind where
  /-- Characters that form no token. -/
  | lexical
  /-- Tokens that do not follow the grammar. -/
  | grammar
  /-- Names that do not exist. -/
  | semantic
  /-- Operators applied to values of the wrong type. -/
  | typing
  /-- A fault of the interpreter itself. -/
  | internal
deriving Repr, DecidableEq, Inhabited

namespace FaultKind

/-- How a diagnostic names the family. -/
def text : FaultKind → String
  | lexical => "lexical error"
  | grammar => "syntax error"
  | semantic => "semantic error"
  | typing => "type error"
  | internal => "internal error"

/-- How the log names the family. -/
def label : FaultKind → String
  | lexical => "Lexical"
  | grammar => "Syntax"
  | semantic => "Semantic"
  | typing => "Type"
  | internal => "Internal"

end FaultKind

/-- **How severe** a fault is. -/
inductive Severity where
  | warning
  | error
  | fatal
deriving Repr, DecidableEq, Inhabited

namespace Severity

/-- How a diagnostic names the severity. -/
def text : Severity → String
  | warning => "warning"
  | error => "error"
  | fatal => "fatal"

/-- How the log names the severity. -/
def label : Severity → String
  | warning => "Warning"
  | error => "Error"
  | fatal => "Fatal"

/-- Everything above a warning is an error. -/
def isError : Severity → Bool
  | warning => false
  | _ => true

end Severity

/-- **What the user is told about a fault.** -/
structure Diagnostic where
  /-- The family of faults. -/
  kind : FaultKind
  /-- How severe the fault is. -/
  severity : Severity := .error
  /-- Where it lies. -/
  span : Span
  /-- What is wrong. -/
  message : String
  /-- The code of the fault, for the faults that have one. -/
  code : Option String := none
deriving Repr, DecidableEq, Inhabited

namespace Diagnostic

/-- Whether the fault is an error, and not only a warning. -/
def isError (d : Diagnostic) : Bool := d.severity.isError

/-- The diagnostic on one line: code, family, place and message. -/
def text (d : Diagnostic) : String :=
  (match d.code with
    | some code => "[" ++ code ++ "] "
    | none => "")
    ++ d.kind.text ++ " at " ++ d.span.text ++ ": " ++ d.message

end Diagnostic

end TreeScript
