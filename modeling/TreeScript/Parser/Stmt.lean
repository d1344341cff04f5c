import TreeScript.Stmt
import TreeScript.Parser.Expr

/-!
# Reading statements

A program is a sequence of **declarations**: definitions and statements. A
declaration that does not follow the grammar is dropped. Its fault is recorded,
and reading goes on behind the next semicolon or in front of the next word that
begins a declaration (`resync`). Blocks recover in the same way, inside their
braces.

Each statement takes one unit of the nesting budget, and its parts are read with
what is left. A definition takes none.
-/

namespace TreeScript

/-! ## Recovery -/

/-- Whether the token is a semicolon. -/
def Token.isSemicolon (t : Token) : Bool := t.kind == .punctuator .semicolon

/-- Whether the token is a word that begins a declaration. -/
def Token.startsDeclaration (t : Token) : Bool :=
  match t.kind with
  | .keyword k => k.startsDeclaration
  | _ => false

/-- Drops tokens through the next semicolon, or up to the next word that begins
a declaration, whichever comes first. -/
def skipDeclaration : List Token → List Token
  | [] => []
  | t :: ts =>
    if t.startsDeclaration then t :: ts
    else if t.isSemicolon then ts
    else skipDeclaration ts

theorem skipDeclaration_suffix (ts : List Token) :
    skipDeclaration ts <:+ ts := by
  induction ts with
  | nil => exact List.suffix_refl _
  | cons t ts ih =>
    simp only [skipDeclaration]
    split
    · exact List.suffix_refl _
    split
    · exact List.suffix_cons t ts
    · exact ih.trans (List.suffix_cons t ts)

/-- **Where reading resumes** after a declaration that began at `start` and
failed at `rest`. If it took no token, one token is dropped whatever it is, so
that reading always gets ahead. -/
def resync (start rest : TokenStream) : TokenStream :=
  if rest.tokens.length = start.tokens.length then
    match rest.tokens with
    | [] => rest
    | t :: ts =>
      { rest with tokens := if t.isSemicolon then ts else skipDeclaration ts }
  else { rest with tokens := skipDeclaration rest.tokens }

theorem resync_isSuffix (start rest : TokenStream) :
    (resync start rest).IsSuffix rest := by
  unfold resync
  split
  · split
    · exact .refl _
    · rename_i t ts h
      refine ⟨?_, rfl⟩
      rw [h]
      dsimp only
      split
      · exact List.suffix_cons t ts
      · exact (skipDeclaration_suffix ts).trans (List.suffix_cons t ts)
  · exact ⟨skipDeclaration_suffix _, rfl⟩

/-- Recovery gets ahead: less is left than where the declaration began. -/
theorem length_resync_lt {start rest : TokenStream} {t : Token}
    {ts : List Token} (hs : start.tokens = t :: ts)
    (h : rest.IsSuffix start) :
    (resync start rest).tokens.length < start.tokens.length := by
  have hle := h.length_le
  unfold resync
  split
  · rename_i heq
    split
    · rename_i h0
      simp [h0, hs] at heq
    · rename_i u us hu
      rw [hu, List.length_cons] at heq
      dsimp only
      split
      · omega
      · have := (skipDeclaration_suffix us).length_le
        omega
  · have := (skipDeclaration_suffix rest.tokens).length_le
    dsimp only
    omega

/-! ## Sequences of declarations -/

/-- What reading a sequence of declarations gives. -/
structure Declarations where
  /-- The declarations that follow the grammar, in order. -/
  statements : List Stmt
  /-- The faults of the declarations that were dropped, in order. -/
  recorded : List ParseError
  /-- What is left to read. -/
  rest : TokenStream
deriving Repr

/-- **Reads declarations** up to a token that stops them, or to the end. -/
def declarations (stop : Token → Bool) (item : Rule Stmt) (s : TokenStream) :
    Declarations :=
  match _h : s.tokens with
  | [] => ⟨[], [], s⟩
  | t :: _ =>
    if stop t then ⟨[], [], s⟩
    else
      let r := item.run s
      match _ho : r.outcome with
      | .ok d =>
        let more := declarations stop item r.rest
        ⟨d :: more.statements, r.recorded ++ more.recorded, more.rest⟩
      | .error e =>
        let more := declarations stop item (resync s r.rest)
        ⟨more.statements, r.recorded ++ e :: more.recorded, more.rest⟩
termination_by s.tokens.length
decreasing_by
  · exact item.advances s d _ho
  · exact length_resync_lt _h (item.parser.rest_suffix s)

theorem declarations_rest_isSuffix (stop : Token → Bool) (item : Rule Stmt)
    (s : TokenStream) : (declarations stop item s).rest.IsSuffix s := by
  fun_induction declarations stop item s with
  | case1 => exact .refl _
  | case2 => exact .refl _
  | case3 s _ _ _ _ r d _ more ih =>
    exact ih.trans (item.parser.rest_suffix s)
  | case4 s _ _ _ _ r e _ more ih =>
    exact ih.trans
      ((resync_isSuffix s r.rest).trans (item.parser.rest_suffix s))

/-- The declarations up to a token that stops them, as a parser. It never
fails: faults are recorded. -/
def Parser.declarations (stop : Token → Bool) (item : Rule Stmt) :
    Parser (List Stmt) where
  run s :=
    let d := TreeScript.declarations stop item s
    ⟨.ok d.statements, d.recorded, d.rest⟩
  rest_suffix s := declarations_rest_isSuffix stop item s

/-! ## Loops with clauses -/

/-- The three clauses of a `for` loop, each of which may be missing. -/
structure ForClauses where
  /-- What is done once, in the scope of the loop. -/
  initial : Option Stmt
  /-- What is tested in front of each round. -/
  condition : Option Expr
  /-- What is evaluated behind each round. -/
  increment : Option Expr
deriving Repr, Inhabited

/-- The body of a `for` loop with its increment behind it. -/
def Stmt.withIncrement (body : Stmt) : Option Expr → Stmt
  | none => body
  | some e => .block body.span [body, .expression e.span e]

/-- **A `for` loop is a block around a `while` loop.** A missing condition is
the literal `true`. -/
def ForClauses.loop (c : ForClauses) (span : Span) (body : Stmt) : Stmt :=
  let condition :=
    c.condition.getD (.literal ⟨.keyword .trueKw, "true", span⟩)
  .block span
    (c.initial.toList ++ [.loop span condition (body.withIncrement c.increment)])

/-! ## The rules -/

namespace Parser

/-- The name behind the word that begins a definition. -/
def variableName : Parser Token :=
  onNext (fun t => if t.kind = .identifier then some (pure t) else none)
    (failHere .expectedVariableName)

/-- The initial value of a definition, behind an equal sign. -/
def initialValue (expression : Rule Expr) : Parser (Option Expr) := do
  match ← accept .equal with
  | none => return none
  | some _ => return some (← expression.parser)

/-- A definition, behind the word that begins it. -/
def definition (expression : Rule Expr) (span : Span) : Parser Stmt := do
  let name ← variableName
  let initial ← initialValue expression
  expect .semicolon "after variable declaration"
  return .define span name initial

/-- An expression and the semicolon that ends it. -/
def terminated (expression : Rule Expr) (context : String) : Parser Expr := do
  let e ← expression.parser
  expect .semicolon context
  return e

/-- An expression as a statement, at the place of its first token. -/
def expressionStatement (expression : Rule Expr) : Parser Stmt := do
  let first ← here
  let e ← terminated expression "after expression"
  return .expression first.span e

/-- The condition of a branch or a loop, in parentheses. -/
def condition (expression : Rule Expr) (opening closing : String) :
    Parser Expr := do
  expect .leftParen opening
  let c ← expression.parser
  expect .rightParen closing
  return c

/-- The part of a branch behind `else`, if there is one. -/
def alternative (statement : Rule Stmt) : Parser (Option Stmt) :=
  onNext
    (fun t =>
      if t.kind = .keyword .elseKw then
        some (do return some (← statement.parser))
      else none)
    (pure none)

/-- A branch, behind its first word. -/
def branch (expression : Rule Expr) (statement : Rule Stmt) (span : Span) :
    Parser Stmt := do
  let c ← condition expression "after `if`" "after if condition"
  let thenStmt ← statement.parser
  let elseStmt ← alternative statement
  return .branch span c thenStmt elseStmt

/-- A `while` loop, behind its first word. -/
def whileLoop (expression : Rule Expr) (statement : Rule Stmt) (span : Span) :
    Parser Stmt := do
  let c ← condition expression "after `while`" "after while condition"
  let body ← statement.parser
  return .loop span c body

/-- The first clause of a `for` loop and its semicolon. -/
def initialClause (expression : Rule Expr) : Parser (Option Stmt) :=
  onNext
    (fun t =>
      if t.kind = .punctuator .semicolon then some (pure none)
      else if t.kind = .keyword .letKw then
        some (do return some (← definition expression t.span))
      else none)
    (do return some (← expressionStatement expression))

/-- An expression, unless a given punctuator comes next. -/
def optionalExpression (expression : Rule Expr) (closing : Punctuator) :
    Parser (Option Expr) := do
  if ← nextIs closing then return none
  else return some (← expression.parser)

/-- The clauses of a `for` loop, in parentheses. -/
def forClauses (expression : Rule Expr) : Parser ForClauses := do
  expect .leftParen "after `for`"
  let initial ← initialClause expression
  let condition ← optionalExpression expression .semicolon
  expect .semicolon "after loop condition"
  let increment ← optionalExpression expression .rightParen
  expect .rightParen "after for clauses"
  return ⟨initial, condition, increment⟩

/-- A `for` loop, behind its first word. -/
def forLoop (expression : Rule Expr) (statement : Rule Stmt) (span : Span) :
    Parser Stmt := do
  let clauses ← forClauses expression
  let body ← statement.parser
  return clauses.loop span body

/-- A block, behind its opening brace. -/
def block (declaration : Rule Stmt) (span : Span) : Parser Stmt := do
  let body ←
    declarations (fun t => t.kind == .punctuator .rightBrace) declaration
  expect .rightBrace "after block"
  return .block span body

end Parser

namespace Rule

/-- A declaration: a definition, or else a statement. -/
def declaration (expression : Rule Expr) (statement : Rule Stmt) :
    Rule Stmt where
  parser :=
    .onNext
      (fun t =>
        if t.kind = .keyword .letKw then
          some (.definition expression t.span)
        else none)
      statement.parser
  advances := .onNext _ statement.advances

/-- What a token that begins a statement leads to, if it is not an expression
that begins. -/
def statementBehind (expression : Rule Expr) (statement : Rule Stmt)
    (t : Token) : Option (Parser Stmt) :=
  match t.kind with
  | .keyword .ifKw => some (.branch expression statement t.span)
  | .keyword .whileKw => some (.whileLoop expression statement t.span)
  | .keyword .forKw => some (.forLoop expression statement t.span)
  | .keyword .printKw => some do
    return .print t.span (← Parser.terminated expression "after value")
  | .punctuator .leftBrace =>
    some (.block (declaration expression statement) t.span)
  | _ => none

/-- A statement whose parts are read by the given rules. -/
def statementOf (expression : Rule Expr) (statement : Rule Stmt) :
    Rule Stmt where
  parser :=
    .onNext (statementBehind expression statement)
      (.expressionStatement expression)
  advances :=
    .onNext _
      (Parser.advances_here_bind (fun _ => (expression.advances.bind _).bind _))

/-- **Reads a statement** within a nesting budget. -/
def statement : Nat → Rule Stmt
  | 0 => tooDeep
  | b + 1 => statementOf (expression b) (statement b)

end Rule

/-! ## Programs -/

/-- How deep statements and expressions may nest. -/
def nestingBudget : Nat := 64

/-- What reading a whole program gives. -/
structure Parse where
  /-- The declarations that follow the grammar, in order. -/
  statements : List Stmt
  /-- The faults of the declarations that were dropped, in order. -/
  errors : List ParseError
deriving Repr

namespace TokenStream

/-- The declarations of a stream, up to its end. -/
def program (s : TokenStream) : Declarations :=
  declarations (fun _ => false)
    (.declaration (.expression nestingBudget) (.statement nestingBudget)) s

/-- The answer to reading one expression. -/
def expression (s : TokenStream) : Reply Expr :=
  (Rule.expression nestingBudget).run s

/-- The answer to reading one statement. -/
def statement (s : TokenStream) : Reply Stmt :=
  (Rule.statement nestingBudget).run s

end TokenStream

/-- **Reads a program** from a token list. -/
def parse (tokens : List Token) : Parse :=
  let d := (TokenStream.ofTokens tokens).program
  ⟨d.statements, d.recorded⟩

end TreeScript
