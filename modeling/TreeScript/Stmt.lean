import TreeScript.Expr

/-!
# Statements

The statement trees of the language. Every statement carries the place of the
first token it was read from. There is no node for `for`: such a loop is read as
a block around a `while`.
-/

namespace TreeScript

/-- **A statement**, with the place it begins. -/
inductive Stmt where
  /-- Statements in a scope of their own. -/
  | block (span : Span) (body : List Stmt)
  /-- An expression evaluated for its effect. -/
  | expression (span : Span) (value : Expr)
  /-- A choice between two statements, the second of which may be missing. -/
  | branch (span : Span) (condition : Expr) (thenStmt : Stmt)
      (elseStmt : Option Stmt)
  /-- An expression whose value is printed. -/
  | print (span : Span) (value : Expr)
  /-- A name defined in the current scope. -/
  | define (span : Span) (name : Token) (initial : Option Expr)
  /-- A loop that tests its condition first. -/
  | loop (span : Span) (condition : Expr) (body : Stmt)
deriving Repr, Inhabited

namespace Stmt

/-- Where the statement begins. -/
def span : Stmt → Span
  | block s _ | expression s _ | branch s _ _ _ | print s _ | define s _ _
  | loop s _ _ => s

/-- **Induction on a statement**: the statements of a block, the parts of a
branch and the body of a loop come first. -/
@[induction_eliminator]
theorem induction {P : Stmt → Prop}
    (block : ∀ span body, (∀ s ∈ body, P s) → P (block span body))
    (expression : ∀ span e, P (expression span e))
    (branch : ∀ span c t e, P t → (∀ s ∈ e, P s) → P (branch span c t e))
    (print : ∀ span e, P (print span e))
    (define : ∀ span name e, P (define span name e))
    (loop : ∀ span c body, P body → P (loop span c body)) (s : Stmt) : P s :=
  @Stmt.rec P (fun body => ∀ s ∈ body, P s) (fun e => ∀ s ∈ e, P s)
    block expression branch print define loop nofun
    (fun _ _ hs hss => List.forall_mem_cons.2 ⟨hs, hss⟩) nofun
    (fun _ hs _ ht => Option.some.inj ht ▸ hs) s

mutual

/-- **The prefix form** of a statement. -/
def text : Stmt → String
  | block _ body => "(block" ++ textAll body ++ ")"
  | expression _ e => "(expr " ++ e.text ++ ")"
  | branch _ c t none => "(if " ++ c.text ++ " " ++ t.text ++ ")"
  | branch _ c t (some e) =>
    "(if " ++ c.text ++ " " ++ t.text ++ " " ++ e.text ++ ")"
  | print _ e => "(print " ++ e.text ++ ")"
  | define _ n none => "(let " ++ n.lexeme ++ ")"
  | define _ n (some e) => "(let " ++ n.lexeme ++ " " ++ e.text ++ ")"
  | loop _ c b => "(while " ++ c.text ++ " " ++ b.text ++ ")"

/-- The prefix forms of several statements, each behind a blank. -/
def textAll : List Stmt → String
  | [] => ""
  | s :: ss => " " ++ s.text ++ textAll ss

end

mutual

/-- **The annotated form** of a statement: the prefix form with places. -/
def annotated : Stmt → String
  | block s body => "(block" ++ s.mark ++ annotatedAll body ++ ")"
  | expression s e => "(expr" ++ s.mark ++ " " ++ e.annotated ++ ")"
  | branch s c t none =>
    "(if" ++ s.mark ++ " " ++ c.annotated ++ " " ++ t.annotated ++ ")"
  | branch s c t (some e) =>
    "(if" ++ s.mark ++ " " ++ c.annotated ++ " " ++ t.annotated ++ " "
      ++ e.annotated ++ ")"
  | print s e => "(print" ++ s.mark ++ " " ++ e.annotated ++ ")"
  | define s n none =>
    "(let" ++ s.mark ++ " " ++ n.lexeme ++ n.span.mark ++ ")"
  | define s n (some e) =>
    "(let" ++ s.mark ++ " " ++ n.lexeme ++ n.span.mark ++ " " ++ e.annotated
      ++ ")"
  | loop s c b =>
    "(while" ++ s.mark ++ " " ++ c.annotated ++ " " ++ b.annotated ++ ")"

/-- The annotated forms of several statements, each behind a blank. -/
def annotatedAll : List Stmt → String
  | [] => ""
  | s :: ss => " " ++ s.annotated ++ annotatedAll ss

end

end Stmt

end TreeScript
