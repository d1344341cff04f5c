import TreeScript.Proofs.Parser.Congruence
import TreeScript.Proofs.Parser.Expr

/-!
# What is known of the trees that are read

A program with faults is read as well: its malformed declarations are dropped,
and what is left is no derivation of the grammar any more. Still its trees are
made by the rules of the grammar. `Expr.Derived T b` and `Stmt.Derived T b` say of a
tree that it can be read within the budget `b` from tokens that satisfy `T`,
whatever was dropped inside its blocks.

For expressions this is a derivation, as nothing is ever dropped inside an
expression: reading one records no fault (`Rule.quiet_expression`), so it gives
a derivation or no answer. For statements there is one constructor for each
rule. What holds of all trees that are read is then proved by induction on
these, and the parser is not looked at again.

The induction is what several results about programs with faults rest on: how
high trees are, what their literals denote, which tokens they are made of. Each
says what it needs of expressions and gets it for all expressions of a statement
(`Stmt.Derived.every`).
-/

namespace TreeScript

open Grammar

/-! ## Parsers that record no fault

Faults are recorded where a declaration is dropped and reading goes on. Inside
an expression nothing is dropped: its first fault stops it. So an expression
that is answered was read as if there were no recovery at all, and what is known
of clean readings applies to it, wherever in a malformed program it stands. -/

namespace Parser

variable {α β : Type}

/-- **The parser records no fault**, whether it answers or fails. -/
def Quiet (p : Parser α) : Prop := ∀ s, (p.run s).recorded = []

theorem quiet_pure (a : α) : (pure a : Parser α).Quiet := fun _ => rfl

/-- A fault stops the parser, and is recorded by whoever goes on. -/
theorem quiet_fail (e : ParseError) : (fail e : Parser α).Quiet := fun _ => rfl

/-- What two parsers record is recorded by one or the other. -/
theorem Quiet.bind {p : Parser α} {f : α → Parser β} (hp : p.Quiet)
    (hf : ∀ s a, (p.run s).outcome = .ok a → (f a).Quiet) : (p >>= f).Quiet := by
  intro s
  show ((p.run s).andThen fun a t => (f a).run t).recorded = []
  unfold Reply.andThen
  split
  · rename_i a ha
    show (p.run s).recorded ++ ((f a).run (p.run s).rest).recorded = []
    rw [hp s, hf s a ha]
    rfl
  · exact hp s

theorem quiet_onNext {f : Token → Option (Parser α)} {otherwise : Parser α}
    (hf : ∀ t p, f t = some p → p.Quiet) (ho : otherwise.Quiet) :
    (onNext f otherwise).Quiet := by
  intro s
  simp only [onNext]
  split
  · rename_i p hp
    obtain ⟨t, -, htp⟩ := Option.bind_eq_some_iff.1 hp
    exact hf t p htp s.tail
  · exact ho s

/-- **The combinators of expressions record no fault.** This is not so for
sequences of declarations, which is where all recorded faults come from. -/
theorem quiet_kept : Kept Quiet Quiet where
  weaken h := h
  ret := quiet_pure
  bind := Quiet.bind
  failHere _ := fun _ => rfl
  onNext := quiet_onNext

/-- A chain records what its operands do. The loop is followed by the induction
of `chainTail`, one case for each way it can end. -/
theorem quiet_chain (table : OperatorTable) {operand : Parser Expr}
    (h : operand.Quiet) : (operand.chain table).Quiet := by
  have htail (lhs : Expr) (s : TokenStream) :
      (chainTail table operand lhs s).recorded = [] := by
    fun_induction chainTail table operand lhs s with
    | case1 => rfl
    | case2 => rfl
    | case3 lhs s => exact h s.tail
    | case4 lhs s _ _ _ _ _ r rhs _ more ih =>
      show r.recorded ++ more.recorded = []
      rw [ih, h s.tail]
      rfl
  intro s
  show ((operand.run s).andThen (chainTail table operand)).recorded = []
  unfold Reply.andThen
  split
  · rename_i lhs _
    show (operand.run s).recorded
      ++ (chainTail table operand lhs (operand.run s).rest).recorded = []
    rw [h s, htail]
    rfl
  · exact h s

/-- An answer of a parser that records no fault is a reading. This is the step
from programs with faults back to the grammar. -/
theorem Quiet.reads {p : Parser α} (h : p.Quiet) {s : TokenStream} {a : α}
    (ho : (p.run s).outcome = .ok a) :
    p.Reads s.finish s.tokens a (p.run s).rest.tokens := by
  have hz := (p.rest_suffix s).2
  have hq := h s
  show p.run s = _
  generalize p.run s = r at ho hz hq ⊢
  obtain ⟨outcome, recorded, us, z⟩ := r
  obtain rfl : outcome = .ok a := ho
  obtain rfl : recorded = [] := hq
  obtain rfl : z = s.finish := hz
  rfl

end Parser

/-- An assignment records nothing either: that its left side is no name is a fault
that stops the parser. -/
theorem Levels.quiet_behindTarget {inner : Levels} (target : Expr)
    (he : inner.expression.parser.Quiet) :
    (inner.behindTarget target).Quiet := by
  have haccept := (Parser.quiet_kept.congruence.accept .equal).1
  refine haccept.bind fun _ o _ => ?_
  cases o with
  | none => exact Parser.quiet_pure target
  | some equals =>
    refine he.bind fun _ value _ => ?_
    cases target with
    | reference name => exact Parser.quiet_pure _
    | _ => exact Parser.quiet_fail _

/-- Both rules for expressions of a budget, as each is made of both of the
budget below. -/
theorem levels_quiet (b : Nat) :
    (levels b).expression.parser.Quiet ∧ (levels b).operand.parser.Quiet :=
  Parser.quiet_kept.levels (fun table _ h => Parser.quiet_chain table h)
    (fun _ target he => Levels.quiet_behindTarget target he) b

/-- **Reading an expression records no fault**, whether it succeeds or not. -/
theorem Rule.quiet_expression (b : Nat) : (expression b).parser.Quiet :=
  (levels_quiet b).1

/-! ## Trees within a budget

A budget bounds how deep a tree can be, and it is used up by the rules in
different ways. The relations below are indexed by it, so that an induction on
the tree is an induction on the budget as well. -/

/-- **The tree of an expression** that nests at most `b` deep, over tokens that
satisfy `T`. The tokens themselves are not kept, as none of the properties
derived from this needs to know which they were. -/
def Expr.Derived (T : Token → Prop) (b : Nat) (e : Expr) : Prop :=
  ∃ ts n, Derives .expression ts e n ∧ n ≤ b ∧ ∀ t ∈ ts, T t

/-- **What can be the first clause of a `for` loop**: a definition or an
expression. It takes no budget beside that of the loop. -/
inductive Stmt.Clause (T : Token → Prop) (b : Nat) : Stmt → Prop
  | define {span : Span} {name : Token} {initial : Option Expr}
      (initial_derived : ∀ e ∈ initial, e.Derived T b) :
      Clause T b (.define span name initial)
  | expression {span : Span} {e : Expr} (value_derived : e.Derived T b) :
      Clause T b (.expression span e)

/-- **The tree of a declaration** that is read within the budget `b` from tokens
that satisfy `T`. A definition takes no budget of its own. -/
inductive Stmt.Derived (T : Token → Prop) : Nat → Stmt → Prop
  | define {b : Nat} {span : Span} {name : Token} {initial : Option Expr}
      (initial_derived : ∀ e ∈ initial, e.Derived T b) :
      Derived T b (.define span name initial)
  | expression {b : Nat} {span : Span} {e : Expr}
      (value_derived : e.Derived T b) :
      Derived T (b + 1) (.expression span e)
  | print {b : Nat} {span : Span} {e : Expr} (value_derived : e.Derived T b) :
      Derived T (b + 1) (.print span e)
  | branch {b : Nat} {span : Span} {c : Expr} {thenStmt : Stmt}
      {elseStmt : Option Stmt} (condition_derived : c.Derived T b)
      (then_derived : Derived T b thenStmt)
      (else_derived : ∀ s ∈ elseStmt, Derived T b s) :
      Derived T (b + 1) (.branch span c thenStmt elseStmt)
  | loop {b : Nat} {span : Span} {c : Expr} {body : Stmt}
      (condition_derived : c.Derived T b) (body_derived : Derived T b body) :
      Derived T (b + 1) (.loop span c body)
  | forLoop {b : Nat} {span : Span} {c : ForClauses} {body : Stmt}
      (initial_derived : ∀ s ∈ c.initial, s.Clause T b)
      (condition_derived : ∀ e ∈ c.condition, e.Derived T b)
      (increment_derived : ∀ e ∈ c.increment, e.Derived T b)
      (body_derived : Derived T b body) :
      Derived T (b + 1) (c.loop span body)
  | block {b : Nat} {span : Span} {body : List Stmt}
      (body_derived : ∀ s ∈ body, Derived T b s) :
      Derived T (b + 1) (.block span body)

/-! ## The expressions of a statement

Much of what is said of statements is only about their expressions. -/

/-- **Every expression of the statement satisfies `P`**, at whatever depth it
stands. -/
inductive Stmt.Every (P : Expr → Prop) : Stmt → Prop
  | block {span : Span} {body : List Stmt} (h : ∀ s ∈ body, Every P s) :
      Every P (.block span body)
  | expression {span : Span} {e : Expr} (h : P e) : Every P (.expression span e)
  | branch {span : Span} {c : Expr} {thenStmt : Stmt} {elseStmt : Option Stmt}
      (hc : P c) (ht : Every P thenStmt) (he : ∀ s ∈ elseStmt, Every P s) :
      Every P (.branch span c thenStmt elseStmt)
  | print {span : Span} {e : Expr} (h : P e) : Every P (.print span e)
  | define {span : Span} {name : Token} {initial : Option Expr}
      (h : ∀ e ∈ initial, P e) : Every P (.define span name initial)
  | loop {span : Span} {c : Expr} {body : Stmt} (hc : P c) (hb : Every P body) :
      Every P (.loop span c body)

/-- A `for` loop without condition adds the literal `true` to the expressions
that were read. It is the only expression of a program that no tokens stand for.
-/
theorem Stmt.Every.forLoop {P : Expr → Prop} {span : Span} {c : ForClauses}
    {body : Stmt} (htrue : P (.literal ⟨.keyword .trueKw, "true", span⟩))
    (hi : ∀ s ∈ c.initial, s.Every P) (hc : ∀ e ∈ c.condition, P e)
    (hu : ∀ e ∈ c.increment, P e) (hb : body.Every P) :
    (c.loop span body).Every P := by
  have hcondition :
      P (c.condition.getD (.literal ⟨.keyword .trueKw, "true", span⟩)) := by
    cases hcond : c.condition with
    | none => exact htrue
    | some e => exact hc e hcond
  have hround : (body.withIncrement c.increment).Every P := by
    cases hinc : c.increment with
    | none => exact hb
    | some e =>
      refine .block (List.forall_mem_cons.2 ⟨hb, fun s hs => ?_⟩)
      rw [List.mem_singleton.1 hs]
      exact .expression (hu e hinc)
  refine .block fun s hs => ?_
  rcases List.mem_append.1 hs with hs | hs
  · exact hi s (Option.mem_toList.1 hs)
  · rw [List.mem_singleton.1 hs]
    exact .loop hcondition hround

/-- **What holds of every expression that is read**, and of the literal `true`,
holds of every expression of a statement that is read. -/
theorem Stmt.Derived.every {T : Token → Prop} {P : Expr → Prop} {b : Nat}
    {s : Stmt} (h : s.Derived T b) (hP : ∀ b e, e.Derived T b → P e)
    (htrue : ∀ span, P (.literal ⟨.keyword .trueKw, "true", span⟩)) :
    s.Every P := by
  have hclause {b : Nat} {s : Stmt} (h : s.Clause T b) : s.Every P := by
    cases h with
    | define h => exact .define fun e he => hP _ e (h e he)
    | expression h => exact .expression (hP _ _ h)
  induction h with
  | define h => exact .define fun e he => hP _ e (h e he)
  | expression h => exact .expression (hP _ _ h)
  | print h => exact .print (hP _ _ h)
  | branch hc _ _ iht ihe => exact .branch (hP _ _ hc) iht ihe
  | loop hc _ ihb => exact .loop (hP _ _ hc) ihb
  | forLoop hi hc hu _ ihb =>
    exact .forLoop (htrue _) (fun s hs => hclause (hi s hs))
      (fun e he => hP _ e (hc e he)) (fun e he => hP _ e (hu e he)) ihb
  | block _ ih => exact .block ih

/-! ## Every tree that is read

Expressions are derivations, and for statements the rules are gone through as a
congruence: each constructor of `Stmt.Derived` is what one rule builds. -/

/-- **An expression that is read is derived** from the tokens it was read
from. -/
theorem Rule.derived_expression (T : Token → Prop) (b : Nat) :
    (expression b).parser.Ensures T (Expr.Derived T b) := by
  intro s hs e he
  have hreads := (Rule.quiet_expression b).reads he
  obtain ⟨⟨ts, n, heq, hd, hn⟩, -⟩ := (levels_exact b).expression.1 hreads
  refine ⟨ts, n, hd, hn, fun t ht => hs t ?_⟩
  rw [heq]
  exact List.mem_append_left _ ht

/-- **What is derived within a budget.** Nothing is said of the second tree. -/
def Parser.Trees.derived (T : Token → Prop) (b : Nat) : Trees where
  expr e _ := e.Derived T b
  clause s _ := s.Clause T b
  stmt s _ := s.Derived T b
  decl s _ := s.Derived T b

/-- Each rule builds a tree of its constructor. -/
theorem Parser.builds_derived (T : Token → Prop) :
    (StmtCongruence.ensuring T).Builds (Trees.derived T) where
  define _ _ _ he := .define (forall_mem_of_rel he)
  defineClause _ _ _ he := .define (forall_mem_of_rel he)
  expressionClause _ he := .expression he
  declaration h := h
  expression _ he := .expression he
  print _ he := .print he
  branch _ hc hs he := .branch hc hs (forall_mem_of_rel he)
  loop _ hc hs := .loop hc hs
  forLoop _ hi hc hu hs :=
    .forLoop (forall_mem_of_rel hi) (forall_mem_of_rel hc) (forall_mem_of_rel hu) hs
  block _ hbody := .block (forall_mem_of_forall₂ hbody)

/-- **A declaration that is read is derived** within the budget it was read
with. -/
theorem Rule.derived_declaration (T : Token → Prop) (b : Nat) :
    (declaration (.expression b) (.statement b)).parser.Ensures T
      (Stmt.Derived T b) := by
  have hexpression (b : Nat) : (expression b).parser.Ensures T
      fun e => ∃ _ : Expr, e.Derived T b :=
    (derived_expression T b).mono fun e he => ⟨e, he⟩
  exact ((Parser.builds_derived T).declaration_rel hexpression b).mono
    fun _ ⟨_, h⟩ => h

/-- **Every statement of a program that was read is derived**, whether the tokens
followed the grammar or not. -/
theorem derived_parse {T : Token → Prop} {tokens : List Token}
    (h : ∀ t ∈ tokens, T t) :
    ∀ s ∈ (parse tokens).statements, s.Derived T nestingBudget := by
  refine Parser.ensures_declarations (Rule.derived_declaration T nestingBudget)
    (.ofTokens tokens) ?_ _ rfl
  intro t ht
  exact h t (List.takeWhile_subset _ ht)

end TreeScript
