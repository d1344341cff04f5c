import TreeScript.Parser.Stmt

/-!
# Reading with a cursor

The parsers of the grammar are functions from what is left to what is left, and
the budget for nesting is one of their arguments. Here the same grammar is read
with a state that is kept from one call to the next (`Cursor`): all tokens and a
position among them, a counter of the levels that are open, and the faults that
were recorded.

* A token is looked at through the position. Taking the end-of-file token does
  not move it, so tokens behind that one are never looked at.
* Each expression, operand and statement opens a level and closes it again, also
  when it fails (`Action.nested`). With as many levels open as the budget allows,
  none is opened.
* A declaration that fails is recorded, and the position moves to where reading
  resumes (`Action.once`).

Loops are bounded by the tokens that are left, and the rules by a number of levels
that is never used up, since the counter refuses before.

The grammar is written down a second time here, action by action, since what is
to be shown is that reading with such a state follows the same rules. That the
two agree is proved for each combinator and each rule elsewhere, so nothing is
taken from the parsers but their faults and tables.
-/

namespace TreeScript

/-! ## The state

Nothing of the state is hidden: that a call leaves no level open and never opens
too many is a statement about its fields. -/

/-- **The state of a reader.** -/
structure Cursor where
  /-- All tokens, also those behind an end-of-file token. -/
  tokens : List Token
  /-- How many of them were taken. -/
  position : Nat := 0
  /-- How many levels are open. -/
  depth : Nat := 0
  /-- How many levels were open at most. -/
  deepest : Nat := 0
  /-- The faults of the declarations that were dropped, in order. -/
  recorded : List ParseError := []
deriving Repr

namespace Cursor

/-- The end-of-file token behind a list without one, at the place of the last
token. -/
def finish (c : Cursor) : Token :=
  .endOfFile ((c.tokens.getLast?.map Token.span).getD .unknown)

/-- The next token. -/
def here (c : Cursor) : Token := c.tokens[c.position]?.getD c.finish

/-- Takes the next token, unless it is the end-of-file token. -/
def advance (c : Cursor) : Cursor :=
  if c.here.isEnd then c else { c with position := c.position + 1 }

/-- How many tokens stand behind the position. -/
def left (c : Cursor) : Nat := c.tokens.length - c.position

/-- Opens a level. -/
def enter (c : Cursor) : Cursor :=
  { c with depth := c.depth + 1, deepest := max c.deepest (c.depth + 1) }

/-- Closes a level. -/
def leave (c : Cursor) : Cursor := { c with depth := c.depth - 1 }

/-- Records a fault. -/
def record (c : Cursor) (e : ParseError) : Cursor :=
  { c with recorded := c.recorded ++ [e] }

/-- Takes tokens through the next semicolon, or up to the next word that begins a
declaration, but not more than a bound. -/
def skip : Nat → Cursor → Cursor
  | 0, c => c
  | k + 1, c =>
    if c.here.isEnd || c.here.startsDeclaration then c
    else if c.here.isSemicolon then c.advance
    else skip k c.advance

/-- Moves to where reading resumes after a declaration that began at `start`. If
no token was taken, one is taken whatever it is. -/
def resync (c : Cursor) (start : Nat) : Cursor :=
  if c.position = start ∧ c.here.isEnd = false then
    if c.here.isSemicolon then c.advance else c.advance.skip c.advance.left
  else c.skip c.left

end Cursor

/-! ## Actions

An action answers or fails, and has a new state in both cases. So the faults
that were recorded and the tokens that were taken before a failure are kept. -/

/-- **What is done with a cursor.** The state is changed whether there is an answer
or a fault. -/
def Action (α : Type) : Type := Cursor → Except ParseError α × Cursor

namespace Action

variable {α β : Type}

/-- Goes on from an answer, and leaves a fault as it is. -/
def onward (x : Except ParseError α × Cursor) (f : α → Action β) :
    Except ParseError β × Cursor :=
  match x with
  | (.ok a, c) => f a c
  | (.error e, c) => (.error e, c)

instance : Monad Action where
  pure a c := (.ok a, c)
  bind p f c := onward (p c) f

/-- Fails with a fault. -/
def fail (e : ParseError) : Action α := fun c => (.error e, c)

/-- Fails with a fault at the next token. -/
def failHere (f : Token → ParseError) : Action α :=
  fun c => (.error (f c.here), c)

/-- The next token, without taking it. -/
def here : Action Token := fun c => (.ok c.here, c)

/-- **A choice by the next token**, which is taken if there is an action for
it. -/
def onNext (f : Token → Option (Action α)) (otherwise : Action α) : Action α :=
  fun c =>
    match f c.here with
    | some p => p c.advance
    | none => otherwise c

/-- Whether the next token is a given punctuator. -/
def nextIs (m : Punctuator) : Action Bool :=
  fun c => (.ok (c.here.kind == .punctuator m), c)

/-- Takes the next token if it is a given punctuator. -/
def accept (m : Punctuator) : Action (Option Token) :=
  onNext
    (fun t => if t.kind = .punctuator m then some (pure (some t)) else none)
    (pure none)

/-- Takes a given punctuator, and fails if another token comes next. -/
def expect (m : Punctuator) (context : String) : Action Unit :=
  onNext (fun t => if t.kind = .punctuator m then some (pure ()) else none)
    (failHere (.expectedPunctuator m context))

/-- **One level deeper.** The level is closed whether there is an answer or a
fault, and none is opened beyond the budget. -/
def nested (p : Action α) : Action α :=
  fun c =>
    if nestingBudget ≤ c.depth then failHere .nestingTooDeep c
    else
      let x := p c.enter
      (x.1, x.2.leave)

/-! ## Loops

A loop has a number of rounds that is never used up, as every round takes a
token. -/

/-- Reads operators of a table with an operand behind each, for a bounded number
of rounds. -/
def chainTail (table : OperatorTable) (operand : Action Expr) :
    Nat → Expr → Action Expr
  | 0, lhs => pure lhs
  | k + 1, lhs =>
    onNext
      (fun t => (table.find? t).map fun op => do
        let rhs ← operand
        chainTail table operand k (.binary op lhs rhs))
      (pure lhs)

/-- A chain: an operand, then any number of operators with an operand each. -/
def chain (table : OperatorTable) (operand : Action Expr) : Action Expr := do
  let lhs ← operand
  fun c => chainTail table operand c.left lhs c

/-- **Reads one declaration of a sequence.** If it fails, the fault is recorded
and there is no statement. -/
def once (item : Action Stmt) : Action (List Stmt) :=
  fun c =>
    match item c with
    | (.ok s, c') => (.ok [s], c')
    | (.error e, c') => (.ok [], (c'.record e).resync c.position)

/-- Reads declarations up to a token that stops them or to the end, for a bounded
number of rounds. -/
def declarationsTail (stop : Token → Bool) (item : Action Stmt) :
    Nat → Action (List Stmt)
  | 0 => pure []
  | k + 1 => do
    let t ← here
    if t.isEnd || stop t then return []
    else
      let ss ← once item
      return ss ++ (← declarationsTail stop item k)

/-- Reads declarations up to a token that stops them, or to the end. -/
def declarations (stop : Token → Bool) (item : Action Stmt) :
    Action (List Stmt) :=
  fun c => declarationsTail stop item c.left c

/-! ## Expressions -/

/-- The actions for expressions at one level. -/
structure Levels where
  /-- A whole expression. -/
  expression : Action Expr
  /-- The operand of a unary operator. -/
  operand : Action Expr

namespace Levels

/-- What a token that begins a primary expression leads to. -/
def primaryBehind (inner : Levels) (t : Token) : Option (Action Expr) :=
  if t.kind.isLiteral then some (pure (.literal t))
  else
    match t.kind with
    | .identifier => some (pure (.reference t))
    | .punctuator .leftParen => some do
      let e ← inner.expression
      expect .rightParen "after expression"
      return .grouping e
    | _ => none

/-- What a token that begins an operand leads to. -/
def operandBehind (inner : Levels) (t : Token) : Option (Action Expr) :=
  match t.kind with
  | .punctuator .bang => some do
    return .unary ⟨t.span, .not⟩ (← inner.operand)
  | .punctuator .minus => some do
    return .unary ⟨t.span, .negate⟩ (← inner.operand)
  | _ => primaryBehind inner t

/-- An operand. -/
def unary (inner : Levels) : Action Expr :=
  onNext (operandBehind inner) (failHere .expectedExpression)

/-- All that binds tighter than an assignment. -/
def comparison (inner : Levels) : Action Expr :=
  chain .equality (chain .relation (chain .sum (chain .product inner.unary)))

/-- The assignment whose left side and equal sign were read. -/
def assignTo (target : Expr) (equals : Token) (value : Expr) : Action Expr :=
  match target with
  | .reference name => pure (.assign name value)
  | _ => fail (.invalidAssignmentTarget equals)

/-- An expression: a comparison or something tighter, or an assignment. -/
def assignment (inner : Levels) : Action Expr := do
  let target ← inner.comparison
  match ← accept .equal with
  | none => return target
  | some equals =>
    let value ← inner.expression
    assignTo target equals value

end Levels

/-- What stands where no rule is left. -/
def stuck : Action α := failHere .nestingTooDeep

/-- **The actions for expressions**, within a bounded number of levels. -/
def levels : Nat → Levels
  | 0 => ⟨stuck, stuck⟩
  | n + 1 => ⟨nested (levels n).assignment, nested (levels n).unary⟩

/-! ## Statements -/

section Statements

variable (expression : Action Expr) (statement : Action Stmt)

/-- The name behind the word that begins a definition. -/
def variableName : Action Token :=
  onNext (fun t => if t.kind = .identifier then some (pure t) else none)
    (failHere .expectedVariableName)

/-- The initial value of a definition. -/
def initialValue : Action (Option Expr) := do
  match ← accept .equal with
  | none => return none
  | some _ => return some (← expression)

/-- A definition, behind the word that begins it. -/
def definition (span : Span) : Action Stmt := do
  let name ← variableName
  let initial ← initialValue expression
  expect .semicolon "after variable declaration"
  return .define span name initial

/-- An expression and the semicolon that ends it. -/
def terminated (context : String) : Action Expr := do
  let e ← expression
  expect .semicolon context
  return e

/-- An expression as a statement. -/
def expressionStatement : Action Stmt := do
  let first ← here
  let e ← terminated expression "after expression"
  return .expression first.span e

/-- The condition of a branch or a loop. -/
def condition (opening closing : String) : Action Expr := do
  expect .leftParen opening
  let c ← expression
  expect .rightParen closing
  return c

/-- The part of a branch behind `else`, if there is one. -/
def alternative : Action (Option Stmt) :=
  onNext
    (fun t =>
      if t.kind = .keyword .elseKw then some (do return some (← statement))
      else none)
    (pure none)

/-- A branch, behind its first word. -/
def branch (span : Span) : Action Stmt := do
  let c ← condition expression "after `if`" "after if condition"
  let thenStmt ← statement
  let elseStmt ← alternative statement
  return .branch span c thenStmt elseStmt

/-- A `while` loop, behind its first word. -/
def whileLoop (span : Span) : Action Stmt := do
  let c ← condition expression "after `while`" "after while condition"
  let body ← statement
  return .loop span c body

/-- The first clause of a `for` loop and its semicolon. -/
def initialClause : Action (Option Stmt) :=
  onNext
    (fun t =>
      if t.kind = .punctuator .semicolon then some (pure none)
      else if t.kind = .keyword .letKw then
        some (do return some (← definition expression t.span))
      else none)
    (do return some (← expressionStatement expression))

/-- An expression, unless a given punctuator comes next. -/
def optionalExpression (closing : Punctuator) : Action (Option Expr) := do
  if ← nextIs closing then return none
  else return some (← expression)

/-- The clauses of a `for` loop. -/
def forClauses : Action ForClauses := do
  expect .leftParen "after `for`"
  let initial ← initialClause expression
  let condition ← optionalExpression expression .semicolon
  expect .semicolon "after loop condition"
  let increment ← optionalExpression expression .rightParen
  expect .rightParen "after for clauses"
  return ⟨initial, condition, increment⟩

/-- A `for` loop, behind its first word. -/
def forLoop (span : Span) : Action Stmt := do
  let clauses ← forClauses expression
  let body ← statement
  return clauses.loop span body

/-- A block, behind its opening brace. -/
def block (declaration : Action Stmt) (span : Span) : Action Stmt := do
  let body ←
    declarations (fun t => t.kind == .punctuator .rightBrace) declaration
  expect .rightBrace "after block"
  return .block span body

/-- A declaration: a definition, or else a statement. -/
def declaration : Action Stmt :=
  onNext
    (fun t =>
      if t.kind = .keyword .letKw then some (definition expression t.span)
      else none)
    statement

/-- What a token that begins a statement leads to, if it is not an expression that
begins. -/
def statementBehind (t : Token) : Option (Action Stmt) :=
  match t.kind with
  | .keyword .ifKw => some (branch expression statement t.span)
  | .keyword .whileKw => some (whileLoop expression statement t.span)
  | .keyword .forKw => some (forLoop expression statement t.span)
  | .keyword .printKw => some do
    return .print t.span (← terminated expression "after value")
  | .punctuator .leftBrace =>
    some (block (declaration expression statement) t.span)
  | _ => none

/-- A statement with its parts one level deeper. -/
def statementOf : Action Stmt :=
  onNext (statementBehind expression statement) (expressionStatement expression)

end Statements

/-- **The action for statements**, within a bounded number of levels. -/
def statement : Nat → Action Stmt
  | 0 => stuck
  | n + 1 => nested (statementOf (levels n).expression (statement n))

end Action

/-! ## Calls

What can be asked of a reader from outside, any number of times and in any
order. -/

/-- **What can be asked of a reader**, by the type of the answer. -/
inductive Cursor.Call : Type → Type where
  /-- One expression. -/
  | expression : Call Expr
  /-- One statement. -/
  | statement : Call Stmt
  /-- All declarations up to the end. -/
  | program : Call (List Stmt)

/-- More levels than the counter ever opens. -/
def levelBound : Nat := nestingBudget + 1

/-- What a call does. -/
def Cursor.Call.action {α : Type} : Call α → Action α
  | .expression => (Action.levels levelBound).expression
  | .statement => .statement levelBound
  | .program =>
    .declarations (fun _ => false)
      (.declaration (Action.levels levelBound).expression (.statement levelBound))

/-- A reader in front of all tokens. -/
def Cursor.ofTokens (ts : List Token) : Cursor where
  tokens := ts

/-- **The state that calls leave**, whether they answer or fail. -/
def Cursor.after (c : Cursor) (calls : List (Σ α, Call α)) : Cursor :=
  calls.foldl (fun c call => (call.2.action c).2) c

end TreeScript
