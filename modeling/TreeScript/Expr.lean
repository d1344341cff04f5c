import TreeScript.Token.Basic

/-!
# Expressions

The expression trees of the language. Literals, names and assignments keep the
token they were read from, operators keep their place, so that a fault met
while evaluating can be reported where it lies (`Expr.span`).

Two written forms exist. The **prefix form** (`Expr.text`) shows the shape of
the tree, the **annotated form** (`Expr.annotated`) also the places.
-/

namespace TreeScript

/-! ## Operators -/

/-- An operator with one operand. -/
inductive UnaryOp where
  | negate
  | not
deriving Repr, DecidableEq, Inhabited

/-- How the operator is spelled. -/
def UnaryOp.text : UnaryOp → String
  | .negate => "-"
  | .not => "!"

/-- A comparison. -/
inductive Comparison where
  | equality
  | inequality
  | less
  | lessEqual
  | greater
  | greaterEqual
deriving Repr, DecidableEq, Inhabited

namespace Comparison

/-- How the comparison is spelled. -/
def text : Comparison → String
  | equality => "=="
  | inequality => "!="
  | less => "<"
  | lessEqual => "<="
  | greater => ">"
  | greaterEqual => ">="

/-- Every comparison. -/
def all : List Comparison :=
  [.equality, .inequality, .less, .lessEqual, .greater, .greaterEqual]

/-- The comparison of two numbers. With an operand that is not a number every
comparison but the inequality is false. -/
def numbers (c : Comparison) (x y : Float) : Bool :=
  match c with
  | equality => x == y
  | inequality => x != y
  | less => decide (x < y)
  | lessEqual => decide (x ≤ y)
  | greater => decide (y < x)
  | greaterEqual => decide (y ≤ x)

end Comparison

/-- An operator with two operands. -/
inductive BinaryOp where
  | add
  | subtract
  | multiply
  | divide
  | comparison (c : Comparison)
deriving Repr, DecidableEq, Inhabited

/-- How the operator is spelled. -/
def BinaryOp.text : BinaryOp → String
  | .add => "+"
  | .subtract => "-"
  | .multiply => "*"
  | .divide => "/"
  | .comparison c => c.text

/-! ## Trees -/

/-- **An expression.** -/
inductive Expr where
  /-- A value given to a name. -/
  | assign (name : Token) (value : Expr)
  /-- Two operands and the operator between them. -/
  | binary (op : Located BinaryOp) (lhs rhs : Expr)
  /-- An expression in parentheses. -/
  | grouping (inner : Expr)
  /-- A number, a string, `true`, `false` or `nil`. -/
  | literal (token : Token)
  /-- An operand and the operator in front of it. -/
  | unary (op : Located UnaryOp) (operand : Expr)
  /-- A name. -/
  | reference (name : Token)
deriving Repr, DecidableEq, Inhabited

namespace Expr

/-- The place that best identifies the expression: that of the operator, or of
the name, or of the literal. -/
def span : Expr → Span
  | assign name _ => name.span
  | binary op _ _ => op.span
  | grouping inner => inner.span
  | literal token => token.span
  | unary op _ => op.span
  | reference name => name.span

/-- A literal as it is written in both forms: strings in quotes. -/
def literalText (t : Token) : String :=
  match t.kind with
  | .string => "\"" ++ t.lexeme ++ "\""
  | _ => t.lexeme

/-- **The prefix form**: operators in front of their operands, in
parentheses. -/
def text : Expr → String
  | assign name value => "(= " ++ name.lexeme ++ " " ++ value.text ++ ")"
  | binary op lhs rhs =>
    "(" ++ op.value.text ++ " " ++ lhs.text ++ " " ++ rhs.text ++ ")"
  | grouping inner => "(group " ++ inner.text ++ ")"
  | literal token => literalText token
  | unary op operand => "(" ++ op.value.text ++ " " ++ operand.text ++ ")"
  | reference name => name.lexeme

end Expr

/-- The position of a place behind an at sign, as the annotated form writes
it. -/
def Span.mark (s : Span) : String :=
  "@" ++ toString s.line ++ ":" ++ toString s.column

/-- **The annotated form**: every node by name, with the places of its names,
literals and operators. -/
def Expr.annotated : Expr → String
  | assign name value =>
    "(assign " ++ name.lexeme ++ name.span.mark ++ " " ++ value.annotated ++ ")"
  | binary op lhs rhs =>
    "(binary " ++ op.value.text ++ op.span.mark ++ " " ++ lhs.annotated ++ " "
      ++ rhs.annotated ++ ")"
  | grouping inner => "(grouping " ++ inner.annotated ++ ")"
  | literal token =>
    "(literal " ++ token.kind.name ++ " " ++ token.lexeme ++ token.span.mark
      ++ ")"
  | unary op operand =>
    "(unary " ++ op.value.text ++ op.span.mark ++ " " ++ operand.annotated
      ++ ")"
  | reference name => "(variable " ++ name.lexeme ++ name.span.mark ++ ")"

end TreeScript
