import TreeScript.Stmt
import TreeScript.Eval
import TreeScript.Event

/-!
# Executing statements

A statement changes the environment and leaves events. It may be stopped by a
runtime error, and then keeps what it has done so far: only the scopes of the
blocks it was in are left.

A loop may go on forever. Execution is therefore told how many rounds each loop
may take, and stops when a loop takes more (`Halt.tooManyRounds`). A statement
that does not stop in this way does the same for every greater number of
rounds.
-/

namespace TreeScript

/-- **Why execution stops** before its end. -/
inductive Halt where
  /-- A runtime error was met. -/
  | error (e : RuntimeError)
  /-- A loop took more rounds than it may. -/
  | tooManyRounds
deriving Repr, DecidableEq, Inhabited

/-- **The state of execution.** -/
structure Machine where
  /-- The scopes in force. -/
  env : Env := {}
  /-- What the outside was let known so far. -/
  events : Array Event := #[]
deriving Repr, Inhabited

namespace Machine

/-- Adds an event. -/
def emit (m : Machine) (e : Event) : Machine :=
  { m with events := m.events.push e }

/-- Defines a name in the innermost scope and notes it. -/
def define (m : Machine) (name : String) (v : Value) : Machine :=
  { m with env := m.env.define name v }.emit (.noted (.defined name v))

/-- Enters a block. -/
def enter (m : Machine) : Machine := { m with env := m.env.enter }

/-- Leaves a block. -/
def leave (m : Machine) : Machine := { m with env := m.env.leave }

/-- Evaluates an expression. -/
def eval (m : Machine) (e : Expr) : Except Halt Value × Machine :=
  let (r, env) := e.eval m.env
  (r.mapError .error, { m with env })

end Machine

/-- **A loop**: while the test holds, one more round. The number bounds the
rounds. -/
def whileLoop (test : Machine → Except Halt Bool × Machine)
    (body : Machine → Except Halt Unit × Machine) :
    Nat → Machine → Except Halt Unit × Machine
  | 0, m => (.error .tooManyRounds, m)
  | n + 1, m =>
    match test m with
    | (.error h, m) => (.error h, m)
    | (.ok false, m) => (.ok (), m)
    | (.ok true, m) =>
      match body m with
      | (.error h, m) => (.error h, m)
      | (.ok (), m) => whileLoop test body n m

/-- Whether a condition holds. -/
def Machine.holds (m : Machine) (condition : Expr) :
    Except Halt Bool × Machine :=
  let (r, m) := m.eval condition
  (r.map Value.isTruthy, m)

namespace Stmt

mutual

/-- **Executes a statement**, with a bound on the rounds of its loops. -/
def exec (rounds : Nat) : Stmt → Machine → Except Halt Unit × Machine
  | block _ body, m =>
    let (r, m) := execAll rounds body m.enter
    (r, m.leave)
  | expression _ e, m =>
    let (r, m) := m.eval e
    (r.map (fun _ => ()), m)
  | branch _ condition thenStmt elseStmt, m =>
    match m.holds condition with
    | (.error h, m) => (.error h, m)
    | (.ok true, m) => exec rounds thenStmt m
    | (.ok false, m) =>
      match elseStmt with
      | some s => exec rounds s m
      | none => (.ok (), m)
  | print _ e, m =>
    match m.eval e with
    | (.error h, m) => (.error h, m)
    | (.ok v, m) => (.ok (), m.emit (.printed v.display))
  | define _ name none, m => (.ok (), m.define name.lexeme .nil)
  | define _ name (some e), m =>
    match m.eval e with
    | (.error h, m) => (.error h, m)
    | (.ok v, m) => (.ok (), m.define name.lexeme v)
  | loop _ condition body, m =>
    whileLoop (·.holds condition) (exec rounds body) rounds m

/-- **Executes statements in order**, up to the first that is stopped. -/
def execAll (rounds : Nat) : List Stmt → Machine → Except Halt Unit × Machine
  | [], m => (.ok (), m)
  | s :: ss, m =>
    match exec rounds s m with
    | (.error h, m) => (.error h, m)
    | (.ok (), m) => execAll rounds ss m

end

end Stmt

end TreeScript
