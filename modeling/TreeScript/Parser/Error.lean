import TreeScript.Diagnostic
import TreeScript.Token.Basic

/-!
# Grammar faults

What can be wrong with a sequence of tokens. Each fault keeps the token it
speaks about, which is also the place it is reported at.
-/

namespace TreeScript

/-- **A fault of the grammar**, with the token it was met at. -/
inductive ParseError where
  /-- An expression should begin here. -/
  | expectedExpression (found : Token)
  /-- A punctuator is missing; `context` says behind what. -/
  | expectedPunctuator (expected : Punctuator) (context : String)
      (found : Token)
  /-- A definition does not name a variable. -/
  | expectedVariableName (found : Token)
  /-- The left side of an assignment is no name. -/
  | invalidAssignmentTarget (equals : Token)
  /-- Statements and expressions nest too deeply. -/
  | nestingTooDeep (found : Token)
deriving Repr, DecidableEq, Inhabited

namespace ParseError

/-- The token the fault speaks about. -/
def token : ParseError → Token
  | expectedExpression t | expectedPunctuator _ _ t | expectedVariableName t
  | invalidAssignmentTarget t | nestingTooDeep t => t

/-- The code of the fault. -/
def code : ParseError → String
  | expectedExpression _ => "E101"
  | expectedPunctuator _ _ _ => "E102"
  | expectedVariableName _ => "E103"
  | invalidAssignmentTarget _ => "E104"
  | nestingTooDeep _ => "E105"

/-- What the user is told. -/
def message : ParseError → String
  | expectedExpression t => "expected expression, but got " ++ t.quoted
  | expectedPunctuator p context t =>
    "expected `" ++ p.text ++ "` " ++ context ++ ", but got " ++ t.quoted
  | expectedVariableName t => "expected variable name, but got " ++ t.quoted
  | invalidAssignmentTarget _ => "invalid assignment target"
  | nestingTooDeep t => "too much nesting at " ++ t.quoted

/-- The diagnostic of a grammar fault. -/
def diagnostic (e : ParseError) : Diagnostic where
  kind := .grammar
  span := e.token.span
  message := e.message
  code := some e.code

end ParseError

end TreeScript
