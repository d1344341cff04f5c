import Mathlib
import TreeScript.Proofs.Parser.Ensures

/-!
# What goes through the grammar

Much of what there is to know about the parsers of the grammar holds for one and
the same reason: it holds of the simplest parsers, and every way to build a parser
keeps it. The rules of the grammar are therefore gone through once, here. What
each property has to say is what it makes of the combinators, and what it makes of
the trees that the rules build.

The most general form is a relation between two parsers, together with a relation
between their answers, since a rule goes on with the answers it has got. Such a
relation is a **congruence** if the combinators keep it.

* `ExprCongruence` has the combinators that rules for expressions are made of. If
  it goes through chains and assignments and relates the trees
  (`ExprCongruence.Builds`), it goes through all rules for expressions, whatever
  the budget (`ExprCongruence.Builds.levels`).
* `StmtCongruence` adds what statements need. From expressions it goes on to all
  statements and declarations (`StmtCongruence.Builds.statement`).

A property of one parser is the case in which nothing is said of the second. Two
kinds of them come up. What is said of the answers alone is
`StmtCongruence.ensuring`. A property that does not speak of answers is kept by
the grammar if the combinators keep it (`Parser.Kept`, `Parser.KeptBySequences`).

A rule that is changed is then changed in one proof, and the properties follow as
long as their combinators and trees are the same.
-/

namespace TreeScript

/-! ## Tokens, faults and tables

What congruences speak about beside parsers: which tokens count as the same,
which faults a parser may fail with, and which tables of operators there are. -/

/-- **What it means for tokens to be alike**: any relation between tokens of the
same kind. A rule decides by kinds alone, so it makes the same choice on tokens
that are alike. -/
structure Likeness where
  /-- The tokens are alike. -/
  rel : Token → Token → Prop
  /-- They have the same kind. -/
  kind_eq {t u : Token} : rel t u → t.kind = u.kind

/-- **A token that satisfies `T` is like itself**, and like nothing else. This is
the likeness for all that is said of one parser alone. -/
def Likeness.within (T : Token → Prop) : Likeness where
  rel t u := t = u ∧ T t
  kind_eq h := congrArg Token.kind h.1

/-- **The faults that are met at the next token.** There is one other, which is met
at a token that was taken before: that of an assignment without a target. -/
inductive ParseError.AtNext : (Token → ParseError) → Prop
  | expectedExpression : AtNext .expectedExpression
  | expectedPunctuator (m : Punctuator) (context : String) :
      AtNext (.expectedPunctuator m context)
  | expectedVariableName : AtNext .expectedVariableName
  | nestingTooDeep : AtNext .nestingTooDeep

theorem ParseError.AtNext.token {f : Token → ParseError} (h : AtNext f)
    (t : Token) : (f t).token = t := by
  cases h <;> rfl

/-- The tables of the grammar, from loose to tight. A congruence may use what is
known of these tables, such as how their operators are spelled. -/
def OperatorTable.all : List OperatorTable := [equality, relation, sum, product]

/-- **What stands behind the left side of an assignment**, or behind an expression
that is none. Here a fault can lie behind the place where the parser has got to,
so every congruence has to speak about it on its own. -/
def Levels.behindTarget (inner : Levels) (target : Expr) : Parser Expr := do
  match ← Parser.accept .equal with
  | none => return target
  | some equals =>
    let value ← inner.expression.parser
    assignTo target equals value

namespace Parser

/-- A parser is what it answers, since that it takes tokens from the front only
is a proposition. -/
theorem eq_of_run {α : Type} {p q : Parser α} (h : p.run = q.run) : p = q := by
  cases p
  cases q
  cases h
  rfl

/-- Handing on an answer changes nothing. With it, weakening what is said of
answers (`ExprCongruence.mono`) needs no condition of its own in a congruence. -/
theorem bind_ret {α : Type} (p : Parser α) : p >>= pure = p := by
  refine eq_of_run (funext fun s => ?_)
  show (p.run s).andThen (fun a t => ⟨.ok a, [], t⟩) = p.run s
  obtain ⟨_ | a, recorded, rest⟩ := p.run s
  · rfl
  · exact congrArg (Reply.mk _ · _) (List.append_nil _)

/-! ## Congruences -/

/-- **A relation between parsers that goes through the combinators** of rules for
expressions. It comes with a relation `R` between answers, and one parser after
another is related if the first ones are and what follows is for all answers that
`R` relates.

Less may be asked of parsers that run behind a token which was taken (`behind`).
For most relations this is the same. It is not for the budget of faults, where the
token in front of a parser pays for one more. -/
structure ExprCongruence (L : Likeness) where
  /-- The parsers are related, and so are their answers. -/
  rel {α : Type} (R : α → α → Prop) (p q : Parser α) : Prop
  /-- The parsers are related behind a token. -/
  behind {α : Type} (R : α → α → Prop) (p q : Parser α) : Prop
  /-- Less is asked behind a token. -/
  weaken {α : Type} {R : α → α → Prop} {p q : Parser α} :
    rel R p q → behind R p q
  /-- Answers that are given at once. -/
  ret {α : Type} {R : α → α → Prop} {a b : α} : R a b → rel R (pure a) (pure b)
  /-- One parser after another. -/
  bind {α β : Type} {R : α → α → Prop} {Q : β → β → Prop} {p q : Parser α}
    {f g : α → Parser β} :
    rel R p q → (∀ a b, R a b → rel Q (f a) (g b)) → rel Q (p >>= f) (q >>= g)
  /-- A fault at the next token. -/
  failHere {α : Type} {R : α → α → Prop} {f : Token → ParseError} :
    ParseError.AtNext f → rel R (failHere f) (failHere f)
  /-- A choice by the next token, which is taken in front of its parser. -/
  onNext {α : Type} {R : α → α → Prop} {f g : Token → Option (Parser α)}
    {p q : Parser α} :
    (∀ t u, L.rel t u → Option.Rel (behind R) (f t) (g u)) → rel R p q →
      rel R (onNext f p) (onNext g q)

/-- **A relation that goes through all combinators of the grammar.** Beside those
of expressions, statements look at the next token without taking it, and a block
is a sequence of declarations in which faults are recorded. What a statement keeps
of its first token is the place, so places have a relation of their own. -/
structure StmtCongruence (L : Likeness) extends ExprCongruence L where
  /-- The places are related. -/
  places : Span → Span → Prop
  /-- Tokens that are alike have related places. -/
  places_of_rel {t u : Token} : L.rel t u → places t.span u.span
  /-- The next token, of which the place is related. -/
  here : rel (fun t u => places t.span u.span) here here
  /-- Whether a punctuator comes next is the same on both sides. -/
  nextIs (m : Punctuator) : rel Eq (nextIs m) (nextIs m)
  /-- One parser after another, both behind a token. -/
  behind_bind {α β : Type} {R : α → α → Prop} {Q : β → β → Prop}
    {p q : Parser α} {f g : α → Parser β} :
    behind R p q → (∀ a b, R a b → behind Q (f a) (g b)) →
      behind Q (p >>= f) (q >>= g)
  /-- A sequence of declarations, behind the token that opens it. -/
  declarations {R : Stmt → Stmt → Prop} {stop : Token → Bool} {item : Rule Stmt} :
    (∀ t u, L.rel t u → stop t = stop u) → rel R item.parser item.parser →
      behind (List.Forall₂ R) (declarations stop item) (declarations stop item)

/-! ## Expressions

The rules for expressions, each under the assumption that what it is made of is
related. -/

namespace ExprCongruence

variable {α : Type} {L : Likeness} {R : α → α → Prop} (C : ExprCongruence L)

/-- A choice of one kind of tokens. Both sides make it, as it is a choice by the
kind, and on that side both know the kind of the token that was taken. -/
theorem onKind {k : TokenKind} {f g : Token → Parser α} {p q : Parser α}
    (hf : ∀ t u, L.rel t u → t.kind = k → C.rel R (f t) (g u))
    (ho : C.rel R p q) :
    C.rel R (Parser.onNext (fun t => if t.kind = k then some (f t) else none) p)
      (Parser.onNext (fun t => if t.kind = k then some (g t) else none) q) := by
  refine C.onNext (fun t u h => ?_) ho
  rw [← L.kind_eq h]
  split
  · rename_i hk
    exact .some (C.weaken (hf t u h hk))
  · exact .none

/-- A punctuator that has to come next leaves nothing to relate. -/
theorem expect (m : Punctuator) (context : String) :
    C.rel Eq (expect m context) (expect m context) :=
  C.onKind (fun _ _ _ _ => C.ret rfl)
    (C.failHere (.expectedPunctuator m context))

/-- A punctuator that may come next is handed on if it does. Its kind is known
then, which is what the fault of an assignment needs of its equal sign. -/
theorem accept (m : Punctuator) :
    C.rel (Option.Rel fun t u => L.rel t u ∧ t.kind = .punctuator m) (accept m)
      (accept m) :=
  C.onKind (fun _ _ h hk => C.ret (.some ⟨h, hk⟩)) (C.ret .none)

/-- More answers may be related. A statement is related as a declaration in this
way, when less is known of declarations. -/
theorem mono {p q : Parser α} {Q : α → α → Prop} (h : C.rel R p q)
    (hRQ : ∀ a b, R a b → Q a b) : C.rel Q p q := by
  rw [← bind_ret p, ← bind_ret q]
  exact C.bind h fun a b hab => C.ret (hRQ a b hab)

theorem optional {p q : Parser α} (h : C.rel R p q) :
    C.rel (Option.Rel R) (do return some (← p)) (do return some (← q)) :=
  C.bind h fun _ _ hab => C.ret (.some hab)

/-- **What a congruence makes of the trees of expressions**: the rules relate what
they build of related parts. Chains and assignments are where the proofs of
different properties really differ, and are asked for as a whole. -/
structure Builds (E : Expr → Expr → Prop) : Prop where
  /-- A literal. -/
  literal {t u : Token} :
    L.rel t u → t.kind.isLiteral = true → E (.literal t) (.literal u)
  /-- A name. -/
  reference {t u : Token} :
    L.rel t u → t.kind = .identifier → E (.reference t) (.reference u)
  /-- An expression in parentheses. -/
  grouping {e f : Expr} : E e f → E (.grouping e) (.grouping f)
  /-- An operator and its operand. -/
  unary {t u : Token} {m : Punctuator} {op : UnaryOp} {e f : Expr} :
    L.rel t u → t.kind = .punctuator m → op.text = m.text → E e f →
      E (.unary ⟨t.span, op⟩ e) (.unary ⟨u.span, op⟩ f)
  /-- A chain with operators of one of the tables. -/
  chain {table : OperatorTable} {p q : Parser Expr} :
    table ∈ OperatorTable.all → C.rel E p q →
      C.rel E (p.chain table) (q.chain table)
  /-- What stands behind the left side of an assignment. -/
  behindTarget {b : Nat} {target target' : Expr} :
    C.rel E (levels b).expression.parser (levels b).expression.parser →
      E target target' →
      C.rel E ((levels b).behindTarget target) ((levels b).behindTarget target')

namespace Builds

variable {C} {E : Expr → Expr → Prop} (h : C.Builds E) {inner : Levels}

include h

section Inner

variable (he : C.rel E inner.expression.parser inner.expression.parser)
  (ho : C.rel E inner.operand.parser inner.operand.parser)

include he

/-- What a token that begins a primary expression leads to. The kinds of
literals and names are handed on to the trees. -/
theorem primaryBehind {t u : Token} (ht : L.rel t u) :
    Option.Rel (C.rel E) (inner.primaryBehind t) (inner.primaryBehind u) := by
  unfold Levels.primaryBehind
  rw [← L.kind_eq ht]
  split
  · rename_i hk
    exact .some (C.ret (h.literal ht hk))
  split
  · rename_i hk
    exact .some (C.ret (h.reference ht hk))
  · exact .some (C.bind he fun _ _ hef => C.bind (C.expect _ _) fun _ _ _ =>
      C.ret (h.grouping hef))
  · exact .none

include ho

/-- What a token that begins an operand leads to. An operator is known by its
punctuator here, so that its spelling is known too. -/
theorem operandBehind {t u : Token} (ht : L.rel t u) :
    Option.Rel (C.rel E) (inner.operandBehind t) (inner.operandBehind u) := by
  have hprimary := h.primaryBehind he ht
  unfold Levels.operandBehind
  rw [← L.kind_eq ht]
  split
  · rename_i hk
    exact .some (C.bind ho fun _ _ hef => C.ret (h.unary ht hk rfl hef))
  · rename_i hk
    exact .some (C.bind ho fun _ _ hef => C.ret (h.unary ht hk rfl hef))
  · exact hprimary

/-- An operand is chosen by its first token, and there is none without one. -/
theorem operand : C.rel E inner.unary.parser inner.unary.parser := by
  refine C.onNext (fun t u ht => ?_) (C.failHere .expectedExpression)
  have hbehind := h.operandBehind he ho ht
  generalize inner.operandBehind t = o, inner.operandBehind u = o' at hbehind
  cases hbehind with
  | none => exact .none
  | some hpq => exact .some (C.weaken hpq)

/-- All that binds tighter than an assignment: four chains, one inside the
other. -/
theorem comparison : C.rel E inner.comparison.parser inner.comparison.parser :=
  h.chain (by simp [OperatorTable.all]) <| h.chain (by simp [OperatorTable.all]) <|
    h.chain (by simp [OperatorTable.all]) <| h.chain (by simp [OperatorTable.all]) <|
      h.operand he ho

end Inner

/-- **A congruence goes through all rules for expressions**, by induction on the
budget: the rules of one budget are made of those of the budget below. -/
theorem levels (b : Nat) :
    C.rel E (levels b).expression.parser (levels b).expression.parser
      ∧ C.rel E (levels b).operand.parser (levels b).operand.parser := by
  induction b with
  | zero => exact ⟨C.failHere .nestingTooDeep, C.failHere .nestingTooDeep⟩
  | succ b ih =>
    obtain ⟨he, ho⟩ := ih
    have hcomparison := h.comparison he ho
    exact ⟨C.bind hcomparison fun _ _ htarget => h.behindTarget he htarget,
      h.operand he ho⟩

end Builds

end ExprCongruence

/-! ## Statements

The rules for statements, with the same for every clause and part. What is said
of trees may differ from one budget to the next. -/

/-- **What is said of the trees** that are read within one budget. -/
structure Trees where
  /-- Of expressions. -/
  expr : Expr → Expr → Prop
  /-- Of the first clause of a `for` loop, which is no statement of its own. -/
  clause : Stmt → Stmt → Prop
  /-- Of statements. -/
  stmt : Stmt → Stmt → Prop
  /-- Of declarations, which may be definitions. -/
  decl : Stmt → Stmt → Prop

namespace StmtCongruence

variable {L : Likeness} (C : StmtCongruence L)

/-- **What a congruence makes of the trees of statements**: the rules relate what
they build of related parts. A statement takes one unit of the budget, and a
definition none. -/
structure Builds (R : Nat → Trees) : Prop where
  /-- A definition as a declaration. -/
  define {b : Nat} {x y : Span} {n k : Token} {e f : Option Expr} :
    C.places x y → L.rel n k → n.kind = .identifier →
      Option.Rel (R b).expr e f → (R b).decl (.define x n e) (.define y k f)
  /-- A definition as the first clause of a loop. -/
  defineClause {b : Nat} {x y : Span} {n k : Token} {e f : Option Expr} :
    C.places x y → L.rel n k → n.kind = .identifier →
      Option.Rel (R b).expr e f → (R b).clause (.define x n e) (.define y k f)
  /-- An expression as the first clause of a loop. -/
  expressionClause {b : Nat} {x y : Span} {e f : Expr} :
    C.places x y → (R b).expr e f →
      (R b).clause (.expression x e) (.expression y f)
  /-- A statement as a declaration. -/
  declaration {b : Nat} {s u : Stmt} : (R b).stmt s u → (R b).decl s u
  /-- An expression as a statement. -/
  expression {b : Nat} {x y : Span} {e f : Expr} :
    C.places x y → (R b).expr e f →
      (R (b + 1)).stmt (.expression x e) (.expression y f)
  /-- A `print` statement. -/
  print {b : Nat} {x y : Span} {e f : Expr} :
    C.places x y → (R b).expr e f → (R (b + 1)).stmt (.print x e) (.print y f)
  /-- A branch. -/
  branch {b : Nat} {x y : Span} {c d : Expr} {s u : Stmt} {e f : Option Stmt} :
    C.places x y → (R b).expr c d → (R b).stmt s u → Option.Rel (R b).stmt e f →
      (R (b + 1)).stmt (.branch x c s e) (.branch y d u f)
  /-- A `while` loop. -/
  loop {b : Nat} {x y : Span} {c d : Expr} {s u : Stmt} :
    C.places x y → (R b).expr c d → (R b).stmt s u →
      (R (b + 1)).stmt (.loop x c s) (.loop y d u)
  /-- A `for` loop, as the block that it stands for. -/
  forLoop {b : Nat} {x y : Span} {c d : ForClauses} {s u : Stmt} :
    C.places x y → Option.Rel (R b).clause c.initial d.initial →
      Option.Rel (R b).expr c.condition d.condition →
      Option.Rel (R b).expr c.increment d.increment → (R b).stmt s u →
      (R (b + 1)).stmt (c.loop x s) (d.loop y u)
  /-- A block. -/
  block {b : Nat} {x y : Span} {ss us : List Stmt} :
    C.places x y → List.Forall₂ (R b).decl ss us →
      (R (b + 1)).stmt (.block x ss) (.block y us)

section Parts

variable {C} {E : Expr → Expr → Prop} {expression : Rule Expr}

/-- The name in a definition is an identifier, and this is kept for the tree. -/
theorem variableName :
    C.rel (fun t u => L.rel t u ∧ t.kind = .identifier) variableName
      variableName :=
  C.onKind (fun _ _ h hk => C.ret ⟨h, hk⟩) (C.failHere .expectedVariableName)

variable (he : C.rel E expression.parser expression.parser)

include he

/-- A definition, whatever is said of its tree. It is read in two places, as a
declaration and as the first clause of a `for` loop, and these may differ. -/
theorem definition {Q : Stmt → Stmt → Prop} {x y : Span}
    (hQ : ∀ n k e f, L.rel n k → n.kind = .identifier → Option.Rel E e f →
      Q (.define x n e) (.define y k f)) :
    C.rel Q (definition expression x) (definition expression y) := by
  have hinitial : C.rel (Option.Rel E) (initialValue expression)
      (initialValue expression) := by
    refine C.bind (C.accept .equal) fun o o' ho => ?_
    cases ho with
    | none => exact C.ret .none
    | some _ => exact C.optional he
  exact C.bind variableName fun n k hn => C.bind hinitial fun e f hef =>
    C.bind (C.expect _ _) fun _ _ _ => C.ret (hQ n k e f hn.1 hn.2 hef)

theorem terminated (context : String) :
    C.rel E (terminated expression context) (terminated expression context) :=
  C.bind he fun _ _ h => C.bind (C.expect _ _) fun _ _ _ => C.ret h

/-- An expression as a statement, whatever is said of its tree. As a definition,
it is also the first clause of a loop. It is at the place of the token that
comes next before anything is read. -/
theorem expressionStatement {Q : Stmt → Stmt → Prop}
    (hQ : ∀ x y e f, C.places x y → E e f →
      Q (.expression x e) (.expression y f)) :
    C.rel Q (expressionStatement expression) (expressionStatement expression) :=
  C.bind C.here fun t u hplaces => C.bind (terminated he _) fun e f h =>
    C.ret (hQ t.span u.span e f hplaces h)

theorem condition (opening closing : String) :
    C.rel E (condition expression opening closing)
      (condition expression opening closing) :=
  C.bind (C.expect _ _) fun _ _ _ => C.bind he fun _ _ h =>
    C.bind (C.expect _ _) fun _ _ _ => C.ret h

/-- Whether an expression is there is seen by the token that would come instead.
-/
theorem optionalExpression (closing : Punctuator) :
    C.rel (Option.Rel E) (optionalExpression expression closing)
      (optionalExpression expression closing) := by
  refine C.bind (C.nextIs closing) ?_
  rintro (- | -) _ rfl
  · exact C.optional he
  · exact C.ret .none

end Parts

theorem alternative {C : StmtCongruence L} {S : Stmt → Stmt → Prop}
    {statement : Rule Stmt} (hs : C.rel S statement.parser statement.parser) :
    C.rel (Option.Rel S) (alternative statement) (alternative statement) :=
  C.onKind (fun _ _ _ _ => C.optional hs) (C.ret .none)

namespace Builds

variable {C} {R : Nat → Trees} (h : C.Builds R)

include h

section Inner

variable {b : Nat} {expression : Rule Expr} {statement : Rule Stmt}
  (he : C.rel (R b).expr expression.parser expression.parser)

include he

/-- The first clause of a `for` loop, if it is not missing, is told by its first
token. -/
theorem initialClause :
    C.rel (Option.Rel (R b).clause) (initialClause expression)
      (initialClause expression) := by
  refine C.onNext (fun t u ht => ?_) (C.optional
    (StmtCongruence.expressionStatement he fun _ _ _ _ => h.expressionClause))
  rw [← L.kind_eq ht]
  split
  · exact .some (C.weaken (C.ret .none))
  split
  · exact .some (C.weaken (C.optional (StmtCongruence.definition he
      fun _ _ _ _ => h.defineClause (C.places_of_rel ht))))
  · exact .none

/-- All clauses, as they come from between the parentheses. That the loop
becomes a block is left to what the congruence makes of trees
(`StmtCongruence.Builds.forLoop`). -/
theorem forClauses :
    C.rel (fun c d => Option.Rel (R b).clause c.initial d.initial
        ∧ Option.Rel (R b).expr c.condition d.condition
        ∧ Option.Rel (R b).expr c.increment d.increment)
      (forClauses expression) (forClauses expression) :=
  C.bind (C.expect _ _) fun _ _ _ => C.bind (h.initialClause he) fun _ _ hi =>
    C.bind (StmtCongruence.optionalExpression he _) fun _ _ hc =>
      C.bind (C.expect _ _) fun _ _ _ =>
        C.bind (StmtCongruence.optionalExpression he _) fun _ _ hu =>
          C.bind (C.expect _ _) fun _ _ _ => C.ret ⟨hi, hc, hu⟩

variable (hs : C.rel (R b).stmt statement.parser statement.parser)

include hs

/-- A declaration is a definition or a statement, and takes no budget itself. -/
theorem declarationOf :
    C.rel (R b).decl (Rule.declaration expression statement).parser
      (Rule.declaration expression statement).parser :=
  C.onKind (fun _ _ ht _ => StmtCongruence.definition he
    fun _ _ _ _ => h.define (C.places_of_rel ht))
    (C.mono hs fun _ _ => h.declaration)

/-- **What the first word of a statement leads to.** Only a block has less to
satisfy, as it stands behind a brace. -/
theorem statementBehind {t u : Token} (ht : L.rel t u) :
    Option.Rel (C.behind (R (b + 1)).stmt)
      (Rule.statementBehind expression statement t)
      (Rule.statementBehind expression statement u) := by
  have hplaces := C.places_of_rel ht
  unfold Rule.statementBehind
  rw [← L.kind_eq ht]
  split
  · exact .some (C.weaken (C.bind (StmtCongruence.condition he _ _) fun _ _ hc =>
      C.bind hs fun _ _ hthen => C.bind (StmtCongruence.alternative hs)
        fun _ _ helse => C.ret (h.branch hplaces hc hthen helse)))
  · exact .some (C.weaken (C.bind (StmtCongruence.condition he _ _) fun _ _ hc =>
      C.bind hs fun _ _ hbody => C.ret (h.loop hplaces hc hbody)))
  · exact .some (C.weaken (C.bind (h.forClauses he) fun _ _ ⟨hi, hc, hu⟩ =>
      C.bind hs fun _ _ hbody => C.ret (h.forLoop hplaces hi hc hu hbody)))
  · exact .some (C.weaken (C.bind (StmtCongruence.terminated he _) fun _ _ hv =>
      C.ret (h.print hplaces hv)))
  · have hstop : ∀ t u, L.rel t u →
        (t.kind == .punctuator .rightBrace)
          = (u.kind == .punctuator .rightBrace) := by
      intro t u htu
      rw [L.kind_eq htu]
    exact .some (C.behind_bind (C.declarations hstop (h.declarationOf he hs))
      fun _ _ hbody => C.weaken (C.bind (C.expect _ _) fun _ _ _ =>
        C.ret (h.block hplaces hbody)))
  · exact .none

/-- A statement is what its first word leads to, or else an expression. -/
theorem statementOf :
    C.rel (R (b + 1)).stmt (Rule.statementOf expression statement).parser
      (Rule.statementOf expression statement).parser :=
  C.onNext (fun _ _ ht => h.statementBehind he hs ht)
    (StmtCongruence.expressionStatement he fun _ _ _ _ => h.expression)

end Inner

variable (he : ∀ b, C.rel (R b).expr (Rule.expression b).parser
  (Rule.expression b).parser)

include he

/-- **A congruence goes through all statements**, by induction on the budget, as
soon as it goes through expressions. -/
theorem statement (b : Nat) :
    C.rel (R b).stmt (Rule.statement b).parser (Rule.statement b).parser := by
  induction b with
  | zero => exact C.failHere .nestingTooDeep
  | succ b ih => exact h.statementOf (he b) ih

/-- **A congruence goes through all declarations**, which is what programs and
blocks are sequences of. -/
theorem declaration_rel (b : Nat) :
    C.rel (R b).decl (Rule.declaration (.expression b) (.statement b)).parser
      (Rule.declaration (.expression b) (.statement b)).parser :=
  h.declarationOf (he b) (h.statement he b)

end Builds

end StmtCongruence

/-! ## What is said of one parser

A congruence is asked for two parsers even if there is only one to speak about.
Here the second is the same parser, and what is said of it is nothing. -/

/-- A list whose members are each related to something is related to a list. So
what is ensured of the declarations of a sequence is ensured of their list. -/
theorem exists_forall₂ {α : Type} {R : α → α → Prop} {as : List α}
    (h : ∀ a ∈ as, ∃ b, R a b) : ∃ bs, List.Forall₂ R as bs := by
  induction as with
  | nil => exact ⟨[], .nil⟩
  | cons a as ih =>
    obtain ⟨⟨b, hb⟩, has⟩ := List.forall_mem_cons.1 h
    obtain ⟨bs, hbs⟩ := ih has
    exact ⟨b :: bs, .cons hb hbs⟩

/-- What is said of the left side alone holds of it. The trees that a rule
builds have parts that may be missing, and of these a congruence speaks by
`Option.Rel`. -/
theorem forall_mem_of_rel {α : Type} {P : α → Prop} {o o' : Option α}
    (h : Option.Rel (fun a _ => P a) o o') : ∀ a ∈ o, P a := by
  intro a hmem
  cases h with
  | none => cases hmem
  | some ha => exact Option.some.inj hmem ▸ ha

theorem forall_mem_of_forall₂ {α : Type} {P : α → Prop} {as bs : List α}
    (h : List.Forall₂ (fun a _ => P a) as bs) : ∀ a ∈ as, P a :=
  have hboth : List.Forall₂ (fun a _ => P a ∧ True) as bs :=
    h.imp fun _ _ ha => ⟨ha, trivial⟩
  ((List.forall₂_and_left as bs).1 hboth).1

/-- A choice on the same token, seen from one side: if it has a parser for the
token, so has the other side. -/
theorem of_choice {α : Type} {T : Token → Prop} {P : Parser α → Parser α → Prop}
    {f g : Token → Option (Parser α)}
    (h : ∀ t u, (Likeness.within T).rel t u → Option.Rel P (f t) (g u))
    {t : Token} {p : Parser α} (ht : T t) (hp : f t = some p) : ∃ q, P p q := by
  have hchoice := h t t ⟨rfl, ht⟩
  rw [hp] at hchoice
  generalize g t = o at hchoice
  cases hchoice with
  | some hpq => exact ⟨_, hpq⟩

/-- **What is ensured of answers goes through the grammar.** Of an answer it is
ensured that it is related to something, and the relation that is chosen does
not look at its right side. What follows a parser is run only on what that
parser has answered, and this is where the other congruences of one parser know
their answers from. -/
def StmtCongruence.ensuring (T : Token → Prop) :
    StmtCongruence (Likeness.within T) where
  rel R p _ := p.Ensures T fun a => ∃ b, R a b
  behind R p _ := p.Ensures T fun a => ∃ b, R a b
  places _ _ := True
  places_of_rel _ := trivial
  weaken h := h
  ret h := ensures_pure ⟨_, h⟩
  bind hp hf := hp.bind fun a ⟨b, hab⟩ => hf a b hab
  failHere _ := ensures_failHere _
  onNext hf ho := ensures_onNext
    (fun _ _ ht hp => (of_choice hf ht hp).elim fun _ h => h) ho
  here := fun _ _ t _ => ⟨t, trivial⟩
  nextIs _ := fun _ _ b _ => ⟨b, rfl⟩
  behind_bind hp hf := hp.bind fun a ⟨b, hab⟩ => hf a b hab
  declarations _ h := (ensures_declarations h).mono fun _ => exists_forall₂

/-- **A property of parsers that the combinators of expressions keep.** It does not
speak of answers. Still, of a sequence only those continuations count that follow
an answer. As in congruences, `Behind` is what is asked of parsers behind a token
that was taken. -/
structure Kept (Holds Behind : ∀ {α : Type}, Parser α → Prop) : Prop where
  /-- Less is asked behind a token. -/
  weaken {α : Type} {p : Parser α} : Holds p → Behind p
  /-- An answer that is given at once. -/
  ret {α : Type} (a : α) : Holds (pure a)
  /-- One parser after another. -/
  bind {α β : Type} {p : Parser α} {f : α → Parser β} :
    Holds p → (∀ s a, (p.run s).outcome = .ok a → Holds (f a)) → Holds (p >>= f)
  /-- A fault at the next token. -/
  failHere {α : Type} {f : Token → ParseError} :
    ParseError.AtNext f → Holds (failHere f : Parser α)
  /-- A choice by the next token, which is taken in front of its parser. -/
  onNext {α : Type} {f : Token → Option (Parser α)} {q : Parser α} :
    (∀ t p, f t = some p → Behind p) → Holds q → Holds (onNext f q)

/-- **A property of parsers that all combinators of the grammar keep.** Blocks
are sequences of declarations, and of a sequence only what is asked behind a
token needs to hold. -/
structure KeptBySequences (Holds Behind : ∀ {α : Type}, Parser α → Prop) : Prop
    extends Kept Holds Behind where
  /-- The next token. -/
  here : Holds here
  /-- Whether a punctuator comes next. -/
  nextIs (m : Punctuator) : Holds (nextIs m)
  /-- One parser after another, both behind a token. -/
  behind_bind {α β : Type} {p : Parser α} {f : α → Parser β} :
    Behind p → (∀ s a, (p.run s).outcome = .ok a → Behind (f a)) →
      Behind (p >>= f)
  /-- A sequence of declarations, behind the token that opens it. -/
  declarations {stop : Token → Bool} {item : Rule Stmt} :
    Holds item.parser → Behind (declarations stop item)

section Kept

variable {Holds Behind : ∀ {α : Type}, Parser α → Prop}

/-- A property that is kept, together with what is ensured of answers, is a
congruence. -/
def Kept.congruence (h : Kept Holds Behind) :
    ExprCongruence (Likeness.within fun _ => True) where
  rel R p q := Holds p ∧ (StmtCongruence.ensuring fun _ => True).rel R p q
  behind R p q := Behind p ∧ (StmtCongruence.ensuring fun _ => True).behind R p q
  weaken hp := ⟨h.weaken hp.1, hp.2⟩
  ret hab := ⟨h.ret _, (StmtCongruence.ensuring _).ret hab⟩
  bind hp hf := by
    refine ⟨h.bind hp.1 fun s a ha => ?_,
      (StmtCongruence.ensuring _).bind hp.2 fun a b hab => (hf a b hab).2⟩
    obtain ⟨b, hab⟩ := hp.2 s (fun _ _ => trivial) a ha
    exact (hf a b hab).1
  failHere hf := ⟨h.failHere hf, (StmtCongruence.ensuring _).failHere hf⟩
  onNext hf ho := by
    refine ⟨h.onNext (fun t p hp => ?_) ho.1, ensures_onNext
      (fun t p ht hp => ?_) ho.2⟩
    · obtain ⟨_, hchoice⟩ := of_choice hf trivial hp
      exact hchoice.1
    · obtain ⟨_, hchoice⟩ := of_choice hf ht hp
      exact hchoice.2

/-- The same with the combinators of statements. Places do not matter here. -/
def KeptBySequences.congruence (h : KeptBySequences Holds Behind) :
    StmtCongruence (Likeness.within fun _ => True) where
  toExprCongruence := h.toKept.congruence
  places _ _ := True
  places_of_rel _ := trivial
  here := ⟨h.here, (StmtCongruence.ensuring _).here⟩
  nextIs m := ⟨h.nextIs m, (StmtCongruence.ensuring _).nextIs m⟩
  behind_bind hp hf := by
    refine ⟨h.behind_bind hp.1 fun s a ha => ?_,
      (StmtCongruence.ensuring _).behind_bind hp.2 fun a b hab => (hf a b hab).2⟩
    obtain ⟨b, hab⟩ := hp.2 s (fun _ _ => trivial) a ha
    exact (hf a b hab).1
  declarations hstop hitem :=
    ⟨h.declarations hitem.1,
      (StmtCongruence.ensuring _).declarations hstop hitem.2⟩

/-- **What the combinators keep holds of all rules for expressions**, if chains and
assignments keep it too. -/
theorem Kept.levels (h : Kept Holds Behind)
    (chain : ∀ table (p : Parser Expr), Holds p → Holds (p.chain table))
    (behindTarget : ∀ b target, Holds (levels b).expression.parser →
      Holds ((levels b).behindTarget target)) (b : Nat) :
    Holds (levels b).expression.parser ∧ Holds (levels b).operand.parser := by
  have hbuilds : h.congruence.Builds fun _ _ => True :=
    { literal := fun _ _ => trivial
      reference := fun _ _ => trivial
      grouping := fun _ => trivial
      unary := fun _ _ _ _ => trivial
      chain := fun _ hp => ⟨chain _ _ hp.1, fun _ _ e _ => ⟨e, trivial⟩⟩
      behindTarget := fun he _ =>
        ⟨behindTarget _ _ he.1, fun _ _ e _ => ⟨e, trivial⟩⟩ }
  obtain ⟨he, ho⟩ := hbuilds.levels b
  exact ⟨he.1, ho.1⟩

/-- Nothing is said of trees. -/
def Trees.unrestricted : Trees :=
  ⟨fun _ _ => True, fun _ _ => True, fun _ _ => True, fun _ _ => True⟩

theorem StmtCongruence.builds_unrestricted {L : Likeness} (C : StmtCongruence L) :
    C.Builds fun _ => .unrestricted := by
  constructor <;> intros <;> trivial

/-- **What the combinators keep holds of all statements and declarations**, if
it holds of all expressions. Whether it does is asked for and not derived,
because a stronger property may be at hand for expressions. -/
theorem KeptBySequences.statement (h : KeptBySequences Holds Behind)
    (he : ∀ b, Holds (Rule.expression b).parser) (b : Nat) :
    Holds (Rule.statement b).parser
      ∧ Holds (Rule.declaration (.expression b) (.statement b)).parser := by
  have hbuilds := h.congruence.builds_unrestricted
  have hexpression (b : Nat) : h.congruence.rel (fun _ _ => True)
      (Rule.expression b).parser (Rule.expression b).parser :=
    ⟨he b, fun _ _ e _ => ⟨e, trivial⟩⟩
  exact ⟨(hbuilds.statement hexpression b).1,
    (hbuilds.declaration_rel hexpression b).1⟩

end Kept

end Parser

end TreeScript
