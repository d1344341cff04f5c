import TreeScript.Exec

/-!
# Steps of execution

Evaluating and executing are made of steps that follow each other: an error ends
the sequence, a value is handed on together with the state (`andThen`). Here
every form of expression and statement is written as such a sequence.

What is proved about all runs is then proved about `andThen` once, and each form
adds only what it does itself. The same goes for what is proved about two runs
(`Abreast`).

The evaluator is written with explicit matches on results, one after the other.
As sequences the same definitions have one case distinction only, that of
`andThen`, and a proof about a form of statement follows the sequence: what the
first step keeps, and then, for the value it hands on, what the rest keeps. An
invariant goes through by `andThen_keeps`, a property of errors by
`andThen_error`, a relation between two runs by `Abreast.andThen`.

A loop is a sequence of unknown length. Its rules (`whileLoop_keeps`,
`whileLoop_error`, `abreast_whileLoop`) are inductions on the bound on its
rounds, made here once for all of these.
-/

namespace TreeScript

section AndThen

variable {ε α β σ : Type}

/-- **One step after another**: an error stays, a value is handed on with the
state. The state goes on in both cases: what was done before an error stays
done. -/
def andThen (r : Except ε α × σ) (f : α → σ → Except ε β × σ) :
    Except ε β × σ :=
  match r with
  | (.ok a, s) => f a s
  | (.error e, s) => (.error e, s)

/-- Sequences need no brackets. This is what makes two ways of writing a loop
body the same. -/
theorem andThen_assoc {γ : Type} (r : Except ε α × σ)
    (f : α → σ → Except ε β × σ) (g : β → σ → Except ε γ × σ) :
    andThen (andThen r f) g = andThen r fun a s => andThen (f a s) g := by
  match r with
  | (.ok _, _) => rfl
  | (.error _, _) => rfl

/-- **What two steps keep, both together keep**, whether the first succeeds or
not. Nothing is said of the values, so this serves for properties of the state
only. -/
theorem andThen_keeps {I : σ → Prop} {r : Except ε α × σ}
    {f : α → σ → Except ε β × σ} (hr : I r.2)
    (hf : ∀ a s, I s → I (f a s).2) : I (andThen r f).2 := by
  match r with
  | (.ok a, s) => exact hf a s hr
  | (.error e, s) => exact hr

/-- **An error of two steps is one of them.** A property of errors is shown for
each step under no assumption on the state, as an error may be raised in any. -/
theorem andThen_error {P : ε → Prop} {r : Except ε α × σ}
    {f : α → σ → Except ε β × σ} (hr : ∀ e, r.1 = .error e → P e)
    (hf : ∀ a s e, (f a s).1 = .error e → P e) :
    ∀ e, (andThen r f).1 = .error e → P e := by
  match r with
  | (.ok a, s) => exact hf a s
  | (.error e, s) =>
    intro e' he
    exact hr e' (congrArg Except.error (Except.error.inj he))

/-- **Two steps succeed** if the first one does, and then the second one from where
it has led. -/
theorem andThen_eq_ok {r : Except ε α × σ} {f : α → σ → Except ε β × σ} {b : β}
    {s' : σ} (h : andThen r f = (.ok b, s')) :
    ∃ a s, r = (.ok a, s) ∧ f a s = (.ok b, s') := by
  match r with
  | (.ok a, s) => exact ⟨a, s, rfl, h⟩
  | (.error e, s) => cases (Prod.mk.inj h).1

end AndThen

/-! ## Two runs

Two runs are compared when something was changed that the script should not
notice: where its tokens stand, or which frames lie around it. `Abreast` fixes
the answer up to a view of the errors, and leaves the relation between the
states open. -/

section Abreast

variable {ε δ α β σ : Type} {fault : ε → δ} {R : σ → σ → Prop}

/-- **Two steps go abreast**: they have the same value, or errors with the same
fault, and their states are related. With the identity as view of errors,
nothing but the states may differ. -/
def Abreast (fault : ε → δ) (R : σ → σ → Prop) (p p' : Except ε α × σ) : Prop :=
  p'.1.mapError fault = p.1.mapError fault ∧ R p.2 p'.2

/-- **Two sequences go abreast** if their first steps do, and then their second
steps from related states, with the same value handed on. The second steps need
to be compared only where the first ones have succeeded. -/
theorem Abreast.andThen {p p' : Except ε α × σ}
    {f f' : α → σ → Except ε β × σ} (h : Abreast fault R p p')
    (hf : ∀ a s s', R s s' → Abreast fault R (f a s) (f' a s')) :
    Abreast fault R (andThen p f) (andThen p' f') := by
  obtain ⟨r, s⟩ := p
  obtain ⟨r', s'⟩ := p'
  obtain ⟨hr, hs⟩ := h
  match r, r', hr with
  | .ok a, .ok a', hr =>
    obtain rfl : a' = a := Except.ok.inj hr
    exact hf a' s s' hs
  | .error e, .error e', hr =>
    exact ⟨congrArg Except.error (Except.error.inj hr), hs⟩

/-- Steps that go abreast succeed together, with the same value. -/
theorem Abreast.ok_iff {p p' : Except ε α × σ} (h : Abreast fault R p p')
    (a : α) : p.1 = .ok a ↔ p'.1 = .ok a := by
  obtain ⟨r, s⟩ := p
  obtain ⟨r', s'⟩ := p'
  match r, r', h.1 with
  | .ok b, .ok b', hr =>
    obtain rfl : b' = b := Except.ok.inj hr
    rfl
  | .error _, .error _, _ => exact ⟨nofun, nofun⟩

end Abreast

/-! ## Expressions

One equation for each form that evaluates a part. They are proved by cases on
the results, the only place where the matches of the evaluator are looked at. -/

namespace Expr

/-- Assigns a value to a name that may have no definition. -/
def store (name : Token) (v : Value) (env : Env) :
    Except RuntimeError Value × Env :=
  match env.overwrite? name.lexeme v with
  | some env' => (.ok v, env')
  | none => (.error (undefinedVariable name), env)

/-- The value is evaluated first; the name is only then looked for. -/
theorem eval_assign (name : Token) (e : Expr) (env : Env) :
    (assign name e).eval env = andThen (e.eval env) (store name) := by
  rw [eval]
  match e.eval env with
  | (.ok _, _) => rfl
  | (.error _, _) => rfl

/-- The operand is evaluated, and then the operator is applied, which may fail
but leaves the environment as it is. -/
theorem eval_unary (op : Located UnaryOp) (e : Expr) (env : Env) :
    (unary op e).eval env
      = andThen (e.eval env) fun v env => (UnaryOp.apply op v, env) := by
  rw [eval]
  match e.eval env with
  | (.ok _, _) => rfl
  | (.error _, _) => rfl

/-- Both operands are evaluated, from left to right, before the operator looks
at their values. There is no operator that skips its right operand. -/
theorem eval_binary (op : Located BinaryOp) (l r : Expr) (env : Env) :
    (binary op l r).eval env
      = andThen (l.eval env) fun x env =>
          andThen (r.eval env) fun y env => (BinaryOp.apply op x y, env) := by
  rw [eval]
  match l.eval env with
  | (.error _, _) => rfl
  | (.ok _, env') =>
    dsimp only [andThen]
    match r.eval env' with
    | (.ok _, _) => rfl
    | (.error _, _) => rfl

end Expr

/-! ## Machines

The same for the test of a condition, and for loops with the rules that follow
by induction on the rounds. -/

theorem Machine.holds_eq (m : Machine) (c : Expr) :
    m.holds c = andThen (m.eval c) fun v m => (.ok v.isTruthy, m) := by
  unfold holds
  match m.eval c with
  | (.ok _, _) => rfl
  | (.error _, _) => rfl

/-- A round of a loop: the test, the body if the test succeeds with true, and
the loop with one round less. -/
theorem whileLoop_succ (test : Machine → Except Halt Bool × Machine)
    (body : Machine → Except Halt Unit × Machine) (n : Nat) (m : Machine) :
    whileLoop test body (n + 1) m
      = andThen (test m) fun goesOn m =>
          if goesOn then andThen (body m) fun _ m => whileLoop test body n m
          else (.ok (), m) := by
  rw [whileLoop]
  match test m with
  | (.error _, _) => rfl
  | (.ok false, _) => rfl
  | (.ok true, m') =>
    dsimp only [andThen]
    match body m' with
    | (.ok (), _) => rfl
    | (.error _, _) => rfl

/-- **What the test and the body of a loop keep, the loop keeps**, however it
ends. The invariant has to be kept also by a test or a body that fails, since
the loop ends with the state that was left. -/
theorem whileLoop_keeps {test : Machine → Except Halt Bool × Machine}
    {body : Machine → Except Halt Unit × Machine} {I : Machine → Prop}
    (htest : ∀ m, I m → I (test m).2) (hbody : ∀ m, I m → I (body m).2)
    (n : Nat) {m : Machine} (hm : I m) : I (whileLoop test body n m).2 := by
  induction n generalizing m with
  | zero => exact hm
  | succ n ih =>
    rw [whileLoop_succ]
    refine andThen_keeps (htest m hm) fun goesOn m₁ hm₁ => ?_
    cases goesOn with
    | false => exact hm₁
    | true => exact andThen_keeps (hbody m₁ hm₁) fun _ m₂ hm₂ => ih hm₂

/-- **An error of a loop is one of its test or its body**, or that it was cut
off. Being cut off is an error like the others here, and has an
assumption of its own. -/
theorem whileLoop_error {test : Machine → Except Halt Bool × Machine}
    {body : Machine → Except Halt Unit × Machine} {P : Halt → Prop}
    (hcut : P .tooManyRounds) (htest : ∀ m e, (test m).1 = .error e → P e)
    (hbody : ∀ m e, (body m).1 = .error e → P e) (n : Nat) (m : Machine) :
    ∀ e, (whileLoop test body n m).1 = .error e → P e := by
  induction n generalizing m with
  | zero =>
    intro e he
    exact Except.error.inj he ▸ hcut
  | succ n ih =>
    rw [whileLoop_succ]
    refine andThen_error (htest m) fun goesOn m₁ => ?_
    cases goesOn with
    | false => exact nofun
    | true => exact andThen_error (hbody m₁) fun _ m₂ => ih m₂

/-- **Loops go abreast** if their tests and their bodies do. They take the same
number of rounds, as related states give the tests the same value. -/
theorem abreast_whileLoop {δ : Type} {fault : Halt → δ}
    {R : Machine → Machine → Prop}
    {test test' : Machine → Except Halt Bool × Machine}
    {body body' : Machine → Except Halt Unit × Machine}
    (htest : ∀ m m', R m m' → Abreast fault R (test m) (test' m'))
    (hbody : ∀ m m', R m m' → Abreast fault R (body m) (body' m'))
    (n : Nat) {m m' : Machine} (h : R m m') :
    Abreast fault R (whileLoop test body n m) (whileLoop test' body' n m') := by
  induction n generalizing m m' with
  | zero => exact ⟨rfl, h⟩
  | succ n ih =>
    rw [whileLoop_succ, whileLoop_succ]
    refine (htest m m' h).andThen fun goesOn m m' h => ?_
    cases goesOn with
    | false => exact ⟨rfl, h⟩
    | true => exact (hbody m m' h).andThen fun _ m m' h => ih h

/-! ## Statements

Each form of statement as a sequence. Together with the equations for lists
these replace the definitions of `Stmt.exec` and `Stmt.execAll` in all proofs
about execution. -/

namespace Stmt

variable (rounds : Nat) (span : Span) (m : Machine)

/-- A block enters a scope and leaves it however its statements end. -/
theorem exec_block (body : List Stmt) :
    exec rounds (block span body) m
      = ((execAll rounds body m.enter).1,
        (execAll rounds body m.enter).2.leave) := by
  rw [exec]

theorem exec_expression (e : Expr) :
    exec rounds (expression span e) m
      = andThen (m.eval e) fun _ m => (.ok (), m) := by
  rw [exec]
  match m.eval e with
  | (.ok _, _) => rfl
  | (.error _, _) => rfl

/-- A branch without `else` does nothing if its condition does not hold. -/
theorem exec_branch (c : Expr) (t : Stmt) (e : Option Stmt) :
    exec rounds (branch span c t e) m
      = andThen (m.holds c) fun holds m =>
          if holds then exec rounds t m
          else e.elim (.ok (), m) fun s => exec rounds s m := by
  rw [exec]
  match m.holds c with
  | (.error _, _) => rfl
  | (.ok true, _) => rfl
  | (.ok false, _) => cases e <;> rfl

/-- A value is printed in its display form, after it was evaluated without
error. -/
theorem exec_print (e : Expr) :
    exec rounds (print span e) m
      = andThen (m.eval e) fun v m => (.ok (), m.emit (.printed v.display)) := by
  rw [exec]
  match m.eval e with
  | (.ok _, _) => rfl
  | (.error _, _) => rfl

/-- A definition without initial value defines its name as `nil`. -/
theorem exec_define (name : Token) (initial : Option Expr) :
    exec rounds (define span name initial) m
      = andThen (initial.elim (.ok .nil, m) m.eval) fun v m =>
          (.ok (), m.define name.lexeme v) := by
  cases initial with
  | none =>
    rw [exec]
    rfl
  | some e =>
    rw [exec, Option.elim_some]
    match m.eval e with
    | (.ok _, _) => rfl
    | (.error _, _) => rfl

/-- A loop may take as many rounds as the whole execution is given, whatever
loops lie around it. -/
theorem exec_loop (c : Expr) (body : Stmt) :
    exec rounds (loop span c body) m
      = whileLoop (·.holds c) (exec rounds body) rounds m := by
  rw [exec]

theorem execAll_nil : execAll rounds [] m = (.ok (), m) := by
  rw [execAll]

theorem execAll_cons (s : Stmt) (ss : List Stmt) :
    execAll rounds (s :: ss) m
      = andThen (exec rounds s m) fun _ m => execAll rounds ss m := by
  rw [execAll]
  match exec rounds s m with
  | (.ok (), _) => rfl
  | (.error _, _) => rfl

/-- A list of one statement is this statement. The two clauses of a `for` loop
are brought to such lists. -/
theorem execAll_singleton (s : Stmt) :
    execAll rounds [s] m = exec rounds s m := by
  rw [execAll_cons]
  match exec rounds s m with
  | (.ok (), m') => exact execAll_nil rounds m'
  | (.error _, _) => rfl

end Stmt

end TreeScript
