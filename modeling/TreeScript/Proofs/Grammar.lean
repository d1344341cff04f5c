import TreeScript.Stmt

/-!
# The grammar

Which token lists are expressions, statements and programs, said without a
parser. `Grammar.Derives` is the grammar of expressions, and
`Grammar.Statement`, `Grammar.Declaration` and `Grammar.Sequence` are that
of statements: each relates the tokens a derivation yields to the tree it
stands for.

Two things are recorded beside the tree. The **nesting** of a derivation is how
deep it nests: one for each statement, one for each expression that stands
where the grammar asks for an expression, and one for each operand of a unary
operator; definitions and the first clause of a `for` loop add nothing of their
own. And a statement is **dangling** if it ends in an `if` without an `else`: an
`else` behind it would belong to that `if`, so the first branch of an `if` with
an `else` must not be dangling. This is how an `else` comes to belong to the
nearest `if` that is open.

There is no tree for `for`: its derivation stands for a block around a `while`
loop.

The grammar is written independently of the parser, after the rules in the
documentation of the language: it has no loops, no look-ahead and no budget, and
derives all trees, however deep they are. Chains of operators are recursive on
the left here, which says how they are grouped. That the parser accepts this
grammar up to its budget is a theorem and no definition.
-/

namespace TreeScript.Grammar

/-! ## Expressions

An expression stands at some level, and each level has the tighter ones inside.
The levels are one family with an index, so that one rule serves for all four
kinds of chains. -/

/-- The levels of binary operators, from loose to tight. -/
inductive Precedence where
  /-- Operands compared for equality. -/
  | equality
  /-- Operands compared by size. -/
  | comparison
  /-- Sums and differences. -/
  | term
  /-- Products and quotients. -/
  | factor
deriving DecidableEq, Repr

namespace Precedence

/-- The binary operator that a punctuator stands for at a level. -/
def operator? : Precedence → Punctuator → Option BinaryOp
  | equality, .bangEqual => some (.comparison .inequality)
  | equality, .equalEqual => some (.comparison .equality)
  | comparison, .greater => some (.comparison .greater)
  | comparison, .greaterEqual => some (.comparison .greaterEqual)
  | comparison, .less => some (.comparison .less)
  | comparison, .lessEqual => some (.comparison .lessEqual)
  | term, .minus => some .subtract
  | term, .plus => some .add
  | factor, .slash => some .divide
  | factor, .asterisk => some .multiply
  | _, _ => none

/-- How tightly the operators of a level bind. -/
def rank : Precedence → Nat
  | equality => 0
  | comparison => 1
  | term => 2
  | factor => 3

end Precedence

/-- **The categories of expressions**, from loose to tight. -/
inductive Category where
  /-- A whole expression, where the grammar asks for one. -/
  | expression
  /-- An assignment, or what binds tighter. -/
  | assignment
  /-- A chain of operators of one level, or what binds tighter. -/
  | binary (l : Precedence)
  /-- An operand behind unary operators, or a primary expression. -/
  | unary
  /-- A literal, a name, or an expression in parentheses. -/
  | primary
deriving DecidableEq, Repr

/-- What stands between the operators of a level: the next tighter category. -/
def Precedence.operand : Precedence → Category
  | equality => .binary comparison
  | comparison => .binary term
  | term => .binary factor
  | factor => .unary

/-- The kinds of token that are literals. -/
inductive IsLiteral : TokenKind → Prop where
  | number : IsLiteral .number
  | string : IsLiteral .string
  | true : IsLiteral (.keyword .trueKw)
  | false : IsLiteral (.keyword .falseKw)
  | nil : IsLiteral (.keyword .nilKw)

/-- The unary operator that a punctuator stands for. -/
def unaryOperator? : Punctuator → Option UnaryOp
  | .bang => some .not
  | .minus => some .negate
  | _ => none

/-- **The grammar of expressions.** `Derives c ts e n` says that the tokens `ts`
are a phrase of category `c`, that its tree is `e` and that its nesting is
`n`. -/
inductive Derives : Category → List Token → Expr → Nat → Prop where
  /-- `expression := assignment`, one level deeper. -/
  | expression {ts : List Token} {e : Expr} {n : Nat} :
      Derives .assignment ts e n → Derives .expression ts e (n + 1)
  /-- `assignment := IDENTIFIER "=" assignment`, where the right side nests like
  any other expression. -/
  | assign {name equals : Token} {ts : List Token} {e : Expr} {n : Nat} :
      name.kind = .identifier → equals.kind = .punctuator .equal →
      Derives .expression ts e n →
      Derives .assignment (name :: equals :: ts) (.assign name e) n
  /-- `assignment := equality`. -/
  | equality {ts : List Token} {e : Expr} {n : Nat} :
      Derives (.binary .equality) ts e n → Derives .assignment ts e n
  /-- A chain of a level may be a single operand. -/
  | operand {l : Precedence} {ts : List Token} {e : Expr} {n : Nat} :
      Derives l.operand ts e n → Derives (.binary l) ts e n
  /-- A chain goes on with an operator and one more operand. The chain in front
  of the operator is its left side. -/
  | link {l : Precedence} {m : Punctuator} {op : BinaryOp} {t : Token}
      {ts us : List Token} {lhs rhs : Expr} {i j : Nat} :
      Derives (.binary l) ts lhs i →
      t.kind = .punctuator m → l.operator? m = some op →
      Derives l.operand us rhs j →
      Derives (.binary l) (ts ++ t :: us) (.binary ⟨t.span, op⟩ lhs rhs)
        (max i j)
  /-- `unary := ( "!" | "-" ) unary`, one level deeper. -/
  | unary {m : Punctuator} {op : UnaryOp} {t : Token} {ts : List Token}
      {e : Expr} {n : Nat} :
      t.kind = .punctuator m → unaryOperator? m = some op →
      Derives .unary ts e n →
      Derives .unary (t :: ts) (.unary ⟨t.span, op⟩ e) (n + 1)
  /-- `unary := primary`. -/
  | primary {ts : List Token} {e : Expr} {n : Nat} :
      Derives .primary ts e n → Derives .unary ts e n
  /-- `primary := NUMBER | STRING | "true" | "false" | "nil"`. -/
  | literal {t : Token} :
      IsLiteral t.kind → Derives .primary [t] (.literal t) 0
  /-- `primary := IDENTIFIER`. -/
  | name {t : Token} :
      t.kind = .identifier → Derives .primary [t] (.reference t) 0
  /-- `primary := "(" expression ")"`. -/
  | grouping {l r : Token} {ts : List Token} {e : Expr} {n : Nat} :
      l.kind = .punctuator .leftParen → Derives .expression ts e n →
      r.kind = .punctuator .rightParen →
      Derives .primary (l :: (ts ++ [r])) (.grouping e) n

/-- An expression, or nothing. -/
inductive Optional : List Token → Option Expr → Nat → Prop where
  | absent : Optional [] none 0
  | present {ts : List Token} {e : Expr} {n : Nat} :
      Derives .expression ts e n → Optional ts (some e) n

/-! ## Statements

Each rule is quoted as it is documented, and has one constructor for each of its
forms. -/

/-- `varDecl := "let" IDENTIFIER ( "=" expression )? ";"`. -/
inductive Definition : List Token → Stmt → Nat → Prop where
  | bare {l name semi : Token} :
      l.kind = .keyword .letKw → name.kind = .identifier →
      semi.kind = .punctuator .semicolon →
      Definition [l, name, semi] (.define l.span name none) 0
  | initialized {l name equals semi : Token} {ts : List Token} {e : Expr}
      {n : Nat} :
      l.kind = .keyword .letKw → name.kind = .identifier →
      equals.kind = .punctuator .equal → Derives .expression ts e n →
      semi.kind = .punctuator .semicolon →
      Definition (l :: name :: equals :: (ts ++ [semi]))
        (.define l.span name (some e)) n

/-- `exprStmt := expression ";"`. The statement begins where its first token
does. -/
inductive ExprStmt : List Token → Stmt → Nat → Prop where
  | mk {t semi : Token} {ts : List Token} {e : Expr} {n : Nat} :
      Derives .expression (t :: ts) e n →
      semi.kind = .punctuator .semicolon →
      ExprStmt (t :: ts ++ [semi]) (.expression t.span e) n

/-- The first clause of a `for` loop: `varDecl | exprStmt | ";"`. -/
inductive Initial : List Token → Option Stmt → Nat → Prop where
  | absent {semi : Token} :
      semi.kind = .punctuator .semicolon → Initial [semi] none 0
  | definition {ts : List Token} {s : Stmt} {n : Nat} :
      Definition ts s n → Initial ts (some s) n
  | exprStmt {ts : List Token} {s : Stmt} {n : Nat} :
      ExprStmt ts s n → Initial ts (some s) n

/-- **What a `for` loop stands for**: a block with the first clause, if there is
one, and a `while` loop whose condition is the literal `true` where none is
given, and whose body is followed by the increment, if there is one, in a block
of their own. -/
def forTree (span : Span) (initial : Option Stmt)
    (condition increment : Option Expr) (body : Stmt) : Stmt :=
  let test :=
    match condition with
    | some c => c
    | none => .literal ⟨.keyword .trueKw, "true", span⟩
  let round :=
    match increment with
    | some e => .block body.span [body, .expression e.span e]
    | none => body
  match initial with
  | some s => .block span [s, .loop span test round]
  | none => .block span [.loop span test round]

mutual

/-- **The grammar of statements.** `Statement ts s n d` says that the tokens
`ts` are a statement, that its tree is `s`, that its nesting is `n`, and that it
is dangling if `d` holds. -/
inductive Statement : List Token → Stmt → Nat → Bool → Prop where
  /-- `exprStmt`. -/
  | expression {ts : List Token} {s : Stmt} {n : Nat} :
      ExprStmt ts s n → Statement ts s (n + 1) false
  /-- `printStmt := "print" expression ";"`. -/
  | print {p semi : Token} {ts : List Token} {e : Expr} {n : Nat} :
      p.kind = .keyword .printKw → Derives .expression ts e n →
      semi.kind = .punctuator .semicolon →
      Statement (p :: (ts ++ [semi])) (.print p.span e) (n + 1) false
  /-- `block := "{" declaration* "}"`. -/
  | block {l r : Token} {ts : List Token} {ss : List Stmt} {n : Nat} :
      l.kind = .punctuator .leftBrace → Sequence ts ss n →
      r.kind = .punctuator .rightBrace →
      Statement (l :: (ts ++ [r])) (.block l.span ss) (n + 1) false
  /-- `ifStmt := "if" "(" expression ")" statement`. -/
  | ifThen {w l r : Token} {cs ts : List Token} {c : Expr} {s : Stmt}
      {i j : Nat} {d : Bool} :
      w.kind = .keyword .ifKw → l.kind = .punctuator .leftParen →
      Derives .expression cs c i → r.kind = .punctuator .rightParen →
      Statement ts s j d →
      Statement (w :: l :: (cs ++ r :: ts)) (.branch w.span c s none)
        (max i j + 1) true
  /-- `ifStmt := "if" "(" expression ")" statement "else" statement`, where the
  first statement leaves no `if` open. -/
  | ifElse {w l r x : Token} {cs ts us : List Token} {c : Expr} {s u : Stmt}
      {i j k : Nat} {d : Bool} :
      w.kind = .keyword .ifKw → l.kind = .punctuator .leftParen →
      Derives .expression cs c i → r.kind = .punctuator .rightParen →
      Statement ts s j false → x.kind = .keyword .elseKw →
      Statement us u k d →
      Statement (w :: l :: (cs ++ r :: (ts ++ x :: us)))
        (.branch w.span c s (some u)) (max i (max j k) + 1) d
  /-- `whileStmt := "while" "(" expression ")" statement`. -/
  | whileLoop {w l r : Token} {cs ts : List Token} {c : Expr} {s : Stmt}
      {i j : Nat} {d : Bool} :
      w.kind = .keyword .whileKw → l.kind = .punctuator .leftParen →
      Derives .expression cs c i → r.kind = .punctuator .rightParen →
      Statement ts s j d →
      Statement (w :: l :: (cs ++ r :: ts)) (.loop w.span c s)
        (max i j + 1) d
  /-- `forStmt := "for" "(" ( varDecl | exprStmt | ";" ) expression? ";"
  expression? ")" statement`. -/
  | forLoop {w l semi r : Token} {is cs us ts : List Token}
      {initial : Option Stmt} {c u : Option Expr} {s : Stmt} {h i j k : Nat}
      {d : Bool} :
      w.kind = .keyword .forKw → l.kind = .punctuator .leftParen →
      Initial is initial h → Optional cs c i →
      semi.kind = .punctuator .semicolon → Optional us u j →
      r.kind = .punctuator .rightParen → Statement ts s k d →
      Statement (w :: l :: (is ++ (cs ++ semi :: (us ++ r :: ts))))
        (forTree w.span initial c u s) (max h (max i (max j k)) + 1) d

/-- `declaration := varDecl | statement`. -/
inductive Declaration : List Token → Stmt → Nat → Prop where
  | definition {ts : List Token} {s : Stmt} {n : Nat} :
      Definition ts s n → Declaration ts s n
  | statement {ts : List Token} {s : Stmt} {n : Nat} {d : Bool} :
      Statement ts s n d → Declaration ts s n

/-- **Programs**: `declaration*`. -/
inductive Sequence : List Token → List Stmt → Nat → Prop where
  | nil : Sequence [] [] 0
  | cons {ts us : List Token} {s : Stmt} {ss : List Stmt} {i j : Nat} :
      Declaration ts s i → Sequence us ss j →
      Sequence (ts ++ us) (s :: ss) (max i j)

end

/-! ## How phrases begin

No look-ahead is part of the grammar. What makes one token of it enough for the
parser is that phrases of different kinds begin with different tokens. -/

/-- The kinds of token that begin an expression. -/
inductive BeginsExpression : TokenKind → Prop where
  | literal {k : TokenKind} : IsLiteral k → BeginsExpression k
  | identifier : BeginsExpression .identifier
  | leftParen : BeginsExpression (.punctuator .leftParen)
  | unary {m : Punctuator} {op : UnaryOp} :
      unaryOperator? m = some op → BeginsExpression (.punctuator m)

/-- A phrase of any category has a first token, which is one that begins an
expression. -/
theorem Derives.head {c : Category} {ts : List Token} {e : Expr} {n : Nat}
    (h : Derives c ts e n) :
    ∃ t us, ts = t :: us ∧ BeginsExpression t.kind := by
  induction h with
  | expression _ ih => exact ih
  | assign hname => exact ⟨_, _, rfl, hname ▸ .identifier⟩
  | equality _ ih => exact ih
  | operand _ ih => exact ih
  | link _ _ _ _ ih =>
    obtain ⟨t, us, rfl, ht⟩ := ih
    exact ⟨t, _, rfl, ht⟩
  | unary hm hop => exact ⟨_, _, rfl, hm ▸ .unary hop⟩
  | primary _ ih => exact ih
  | literal ht => exact ⟨_, _, rfl, .literal ht⟩
  | name ht => exact ⟨_, _, rfl, ht ▸ .identifier⟩
  | grouping hl => exact ⟨_, _, rfl, hl ▸ .leftParen⟩

theorem BeginsExpression.isLiteral_of_keyword {k : Keyword}
    (h : BeginsExpression (.keyword k)) : IsLiteral (.keyword k) := by
  cases h with
  | literal h => exact h

/-- An expression begins with no other keyword. In particular none of the words
that begin statements does. -/
theorem BeginsExpression.ne_keyword {k : TokenKind} (h : BeginsExpression k)
    {w : Keyword} (hw : ¬ IsLiteral (.keyword w)) : k ≠ .keyword w := by
  rintro rfl
  exact hw h.isLiteral_of_keyword

/-- The only punctuators that an expression begins with are a parenthesis and the
unary operators, so it begins neither with a brace nor with a semicolon. -/
theorem BeginsExpression.ne_punctuator {k : TokenKind}
    (h : BeginsExpression k) {m : Punctuator} (hp : m ≠ .leftParen)
    (hm : unaryOperator? m = none) : k ≠ .punctuator m := by
  rintro rfl
  cases h with
  | literal h => cases h
  | leftParen => exact hp rfl
  | unary hop => rw [hm] at hop; cases hop

/-- How a statement begins: with a brace, with one of the words that begin
statements, or like an expression. -/
inductive BeginsStatement : TokenKind → Prop where
  | expression {k : TokenKind} : BeginsExpression k → BeginsStatement k
  | leftBrace : BeginsStatement (.punctuator .leftBrace)
  | print : BeginsStatement (.keyword .printKw)
  | ifWord : BeginsStatement (.keyword .ifKw)
  | whileWord : BeginsStatement (.keyword .whileKw)
  | forWord : BeginsStatement (.keyword .forKw)

theorem ExprStmt.head {ts : List Token} {s : Stmt} {n : Nat}
    (h : ExprStmt ts s n) :
    ∃ t us, ts = t :: us ∧ BeginsExpression t.kind := by
  obtain ⟨he, _⟩ := h
  obtain ⟨t, us, heq, ht⟩ := he.head
  obtain ⟨rfl, rfl⟩ := List.cons.inj heq
  exact ⟨_, _, rfl, ht⟩

theorem Definition.head {ts : List Token} {s : Stmt} {n : Nat}
    (h : Definition ts s n) :
    ∃ t us, ts = t :: us ∧ t.kind = .keyword .letKw := by
  cases h with
  | bare hl | initialized hl => exact ⟨_, _, rfl, hl⟩

/-- The first token of a statement tells which rule it is made by. -/
theorem Statement.head {ts : List Token} {s : Stmt} {n : Nat} {d : Bool}
    (h : Statement ts s n d) :
    ∃ t us, ts = t :: us ∧ BeginsStatement t.kind := by
  cases h with
  | expression h =>
    obtain ⟨t, us, rfl, ht⟩ := h.head
    exact ⟨t, us, rfl, .expression ht⟩
  | block hl => exact ⟨_, _, rfl, hl ▸ .leftBrace⟩
  | print hw => exact ⟨_, _, rfl, hw ▸ .print⟩
  | ifThen hw | ifElse hw => exact ⟨_, _, rfl, hw ▸ .ifWord⟩
  | whileLoop hw => exact ⟨_, _, rfl, hw ▸ .whileWord⟩
  | forLoop hw => exact ⟨_, _, rfl, hw ▸ .forWord⟩

/-- No statement begins like a definition, so a declaration is one or the other
by its first token. -/
theorem BeginsStatement.ne_let {k : TokenKind} (h : BeginsStatement k) :
    k ≠ .keyword .letKw := by
  cases h with
  | expression h => exact h.ne_keyword nofun
  | _ => exact nofun

/-- **A declaration begins with neither `else` nor a closing brace.** So an
`else` behind a declaration can only belong to it, and a closing brace can only
end the block around it. -/
theorem Declaration.head {ts : List Token} {s : Stmt} {n : Nat}
    (h : Declaration ts s n) :
    ∃ t us, ts = t :: us ∧ t.kind ≠ .keyword .elseKw
      ∧ t.kind ≠ .punctuator .rightBrace := by
  cases h with
  | definition h =>
    obtain ⟨t, us, rfl, ht⟩ := h.head
    refine ⟨t, us, rfl, ?_⟩
    rw [ht]
    exact ⟨nofun, nofun⟩
  | statement h =>
    obtain ⟨t, us, rfl, ht⟩ := h.head
    refine ⟨t, us, rfl, ?_⟩
    generalize t.kind = k at ht
    cases ht with
    | expression ht => exact ⟨ht.ne_keyword nofun, ht.ne_punctuator nofun rfl⟩
    | _ => exact ⟨nofun, nofun⟩

end TreeScript.Grammar
