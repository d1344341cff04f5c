import TreeScript.Expr
import TreeScript.Env.Basic
import TreeScript.RuntimeError
import TreeScript.Decimal.Read

/-!
# Evaluating expressions

An expression has a value or leads to a runtime error, and may assign to names
on the way. Operands are evaluated from left to right, and what has been
assigned before an error stays assigned: the answer always has an environment.
-/

namespace TreeScript

/-! ## Literals -/

/-- The error at a literal that stands for no value. -/
def invalidLiteral (t : Token) (message : String) : RuntimeError :=
  ⟨t.span, .internal message⟩

/-- **The value of a literal.** -/
def literalValue (t : Token) : Except RuntimeError Value :=
  match t.kind with
  | .number =>
    match Decimal.readFloat t.lexeme with
    | .ok x => .ok (.number x)
    | .error e =>
      .error (invalidLiteral t
        ("invalid number literal `" ++ t.lexeme ++ "`: " ++ e.message))
  | .string => .ok (.text t.lexeme)
  | .keyword .trueKw => .ok (.boolean true)
  | .keyword .falseKw => .ok (.boolean false)
  | .keyword .nilKw => .ok .nil
  | _ => .error (invalidLiteral t (t.quoted ++ " is not a literal"))

/-! ## Operators -/

/-- **The value of a unary operator** at its operand. Only numbers can be
negated; `!` asks whether the operand is not truthy. -/
def UnaryOp.apply (op : Located UnaryOp) (v : Value) :
    Except RuntimeError Value :=
  match op.value, v with
  | .not, v => .ok (.boolean (!v.isTruthy))
  | .negate, .number x => .ok (.number (-x))
  | .negate, v =>
    .error ⟨op.span, .unaryTypeMismatch op.value.text v.type⟩

namespace BinaryOp

/-- The error at operands that the operator is not defined for. -/
def mismatch (op : Located BinaryOp) (expected : String) (x y : Value) :
    RuntimeError :=
  ⟨op.span, .typeMismatch op.value.text expected x.type y.type⟩

/-- An operator on numbers. -/
def onNumbers (op : Located BinaryOp) (f : Float → Float → Value)
    (x y : Value) : Except RuntimeError Value :=
  match x, y with
  | .number a, .number b => .ok (f a b)
  | x, y => .error (mismatch op "numbers" x y)

/-- Sums of numbers, and texts put together. -/
def sum (op : Located BinaryOp) (x y : Value) : Except RuntimeError Value :=
  match x, y with
  | .number a, .number b => .ok (.number (a + b))
  | .text s, .text t => .ok (.text (s ++ t))
  | x, y => .error (mismatch op "two numbers or two strings" x y)

/-- **The value of a binary operator** at its operands. Any two values can be
tested for equality; all other operators but the sum want numbers. -/
def apply (op : Located BinaryOp) (x y : Value) : Except RuntimeError Value :=
  match op.value with
  | .add => sum op x y
  | .subtract => onNumbers op (fun a b => .number (a - b)) x y
  | .multiply => onNumbers op (fun a b => .number (a * b)) x y
  | .divide => onNumbers op (fun a b => .number (a / b)) x y
  | .comparison .equality => .ok (.boolean (x.equals y))
  | .comparison .inequality => .ok (.boolean (!x.equals y))
  | .comparison c => onNumbers op (fun a b => .boolean (c.numbers a b)) x y

end BinaryOp

/-! ## Expressions -/

/-- The error at a name that has no definition. -/
def undefinedVariable (name : Token) : RuntimeError :=
  ⟨name.span, .undefinedVariable name.lexeme⟩

/-- **Evaluates an expression**: its value or the first error, and the
environment it leaves. -/
def Expr.eval : Expr → Env → Except RuntimeError Value × Env
  | .literal t, env => (literalValue t, env)
  | .reference name, env =>
    match env.find? name.lexeme with
    | some v => (.ok v, env)
    | none => (.error (undefinedVariable name), env)
  | .grouping inner, env => inner.eval env
  | .assign name value, env =>
    match value.eval env with
    | (.error e, env) => (.error e, env)
    | (.ok v, env) =>
      match env.overwrite? name.lexeme v with
      | some env' => (.ok v, env')
      | none => (.error (undefinedVariable name), env)
  | .unary op operand, env =>
    match operand.eval env with
    | (.error e, env) => (.error e, env)
    | (.ok v, env) => (UnaryOp.apply op v, env)
  | .binary op lhs rhs, env =>
    match lhs.eval env with
    | (.error e, env) => (.error e, env)
    | (.ok x, env) =>
      match rhs.eval env with
      | (.error e, env) => (.error e, env)
      | (.ok y, env) => (BinaryOp.apply op x y, env)

end TreeScript
