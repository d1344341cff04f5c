import TreeScript.Expr
import TreeScript.Parser.Basic

/-!
# Reading expressions

The grammar of expressions, from loose to tight:

* an assignment is a name, an equal sign and an expression;
* equality, relation, sum and product are **chains**: operands of the next
  tighter level with operators of one table between them, grouped to the left
  (`Rule.chain`);
* an operand is a primary expression, or an operand behind a unary operator.

Parentheses, the right side of an assignment and the operand of a unary operator
nest. How deep is bounded by a budget, and `Levels` holds the rules that one
budget admits. A rule for budget `b + 1` is built from those for `b`, so the
grammar is defined by recursion on the budget.
-/

namespace TreeScript

/-! ## Chains of binary operators -/

/-- The binary operators of one level of the grammar, by punctuator. -/
abbrev OperatorTable := List (Punctuator × BinaryOp)

namespace OperatorTable

/-- The operator that a token stands for at this level. -/
def find? (table : OperatorTable) (t : Token) : Option (Located BinaryOp) :=
  match t.kind with
  | .punctuator m => (table.lookup m).map (⟨t.span, ·⟩)
  | _ => none

/-- Equality and inequality. -/
def equality : OperatorTable :=
  [(.bangEqual, .comparison .inequality), (.equalEqual, .comparison .equality)]

/-- Comparisons of size. -/
def relation : OperatorTable :=
  [(.greater, .comparison .greater), (.greaterEqual, .comparison .greaterEqual),
    (.less, .comparison .less), (.lessEqual, .comparison .lessEqual)]

/-- Sums and differences. -/
def sum : OperatorTable := [(.plus, .add), (.minus, .subtract)]

/-- Products and quotients. -/
def product : OperatorTable := [(.asterisk, .multiply), (.slash, .divide)]

end OperatorTable

namespace Parser

/-- Reads operators of a table, each with the operand behind it, and groups
them to the left, starting from an operand that has been read. -/
def chainTail (table : OperatorTable) (operand : Parser Expr) (lhs : Expr)
    (s : TokenStream) : Reply Expr :=
  match _h : s.tokens with
  | [] => ⟨.ok lhs, [], s⟩
  | t :: _ =>
    match table.find? t with
    | none => ⟨.ok lhs, [], s⟩
    | some op =>
      let r := operand.run s.tail
      match r.outcome with
      | .error e => ⟨.error e, r.recorded, r.rest⟩
      | .ok rhs =>
        let more := chainTail table operand (.binary op lhs rhs) r.rest
        ⟨more.outcome, r.recorded ++ more.recorded, more.rest⟩
termination_by s.tokens.length
decreasing_by
  exact Nat.lt_of_le_of_lt (operand.rest_suffix _).length_le
    (TokenStream.length_tail_lt _h)

theorem chainTail_rest_isSuffix (table : OperatorTable) (operand : Parser Expr)
    (lhs : Expr) (s : TokenStream) :
    (chainTail table operand lhs s).rest.IsSuffix s := by
  fun_induction chainTail table operand lhs s with
  | case1 => exact .refl _
  | case2 => exact .refl _
  | case3 lhs s =>
    exact (operand.rest_suffix s.tail).trans s.tail_isSuffix
  | case4 lhs s _ _ _ _ _ r rhs _ more ih =>
    exact ih.trans ((operand.rest_suffix s.tail).trans s.tail_isSuffix)

/-- A chain: an operand, then any number of operators with an operand each. -/
def chain (table : OperatorTable) (operand : Parser Expr) : Parser Expr where
  run s := (operand.run s).andThen (chainTail table operand)
  rest_suffix s :=
    Reply.andThen_rest_isSuffix _ _ (operand.rest_suffix s)
      (chainTail_rest_isSuffix table operand)

theorem Advances.chain (table : OperatorTable) {operand : Parser Expr}
    (h : operand.Advances) : (operand.chain table).Advances := by
  intro s a ha
  simp only [Parser.chain, Reply.andThen] at ha ⊢
  split at ha
  · rename_i x hx
    exact Nat.lt_of_le_of_lt
      (chainTail_rest_isSuffix table operand x _).length_le (h s x hx)
  · cases ha

end Parser

/-- **A chain of operands** with operators of one table between them. -/
def Rule.chain (table : OperatorTable) (operand : Rule Expr) : Rule Expr where
  parser := operand.parser.chain table
  advances := operand.advances.chain table

/-! ## The levels -/

/-- **The rules for expressions** that one nesting budget admits. -/
structure Levels where
  /-- A whole expression. -/
  expression : Rule Expr
  /-- The operand of a unary operator. -/
  operand : Rule Expr

namespace Levels

/-- What a token that begins a primary expression leads to. -/
def primaryBehind (inner : Levels) (t : Token) : Option (Parser Expr) :=
  if t.kind.isLiteral then some (pure (.literal t))
  else
    match t.kind with
    | .identifier => some (pure (.reference t))
    | .punctuator .leftParen => some do
      let e ← inner.expression.parser
      Parser.expect .rightParen "after expression"
      return .grouping e
    | _ => none

/-- What a token that begins an operand leads to. -/
def operandBehind (inner : Levels) (t : Token) : Option (Parser Expr) :=
  match t.kind with
  | .punctuator .bang => some do
    return .unary ⟨t.span, .not⟩ (← inner.operand.parser)
  | .punctuator .minus => some do
    return .unary ⟨t.span, .negate⟩ (← inner.operand.parser)
  | _ => primaryBehind inner t

/-- An operand: a literal, a name, an expression in parentheses, or an operand
behind a unary operator. -/
def unary (inner : Levels) : Rule Expr where
  parser := .onNext (operandBehind inner) (.failHere .expectedExpression)
  advances := .onNext _ (Parser.advances_failHere _)

/-- All that binds tighter than an assignment. -/
def comparison (inner : Levels) : Rule Expr :=
  .chain .equality (.chain .relation (.chain .sum (.chain .product inner.unary)))

/-- The assignment whose left side and equal sign have been read. Only a name
can be assigned to. -/
def assignTo (target : Expr) (equals : Token) (value : Expr) : Parser Expr :=
  match target with
  | .reference name => pure (.assign name value)
  | _ => .fail (.invalidAssignmentTarget equals)

/-- An expression: a comparison or something tighter, or an assignment. The
right side is read before the left side is looked at. -/
def assignment (inner : Levels) : Rule Expr where
  parser := do
    let target ← inner.comparison.parser
    match ← Parser.accept .equal with
    | none => return target
    | some equals =>
      let value ← inner.expression.parser
      assignTo target equals value
  advances := inner.comparison.advances.bind _

end Levels

/-- **The rules for expressions by budget.** With no budget left nothing can be
read. -/
def levels : Nat → Levels
  | 0 => ⟨.tooDeep, .tooDeep⟩
  | b + 1 =>
    let inner := levels b
    ⟨inner.assignment, inner.unary⟩

/-- Reads an expression within a nesting budget. -/
def Rule.expression (budget : Nat) : Rule Expr := (levels budget).expression

end TreeScript
