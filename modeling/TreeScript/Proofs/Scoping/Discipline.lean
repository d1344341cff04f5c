import TreeScript.Run
import TreeScript.Proofs.Exec.Steps
import TreeScript.Proofs.Scoping.Resolution

/-!
# Scope discipline

Execution may stop anywhere: at the end of a statement, or with an error deep
inside blocks, branches and loops. However it stops, it leaves the scopes in
order. The current scope is the one it was before, the scopes around it have the
names they had, and the current scope has lost no name and gained only names that
the statement defines outside its own blocks (`Env.Grows`).

Everything follows from what a single step does to the scopes: evaluating adds
no name, a definition adds one to the current scope, and a block drops the scope
it has added. A loop and a list of statements are any number of steps one after
the other, and `Env.Grows` composes.

A session is a sequence of calls from outside. Each of them starts in the global
scope, so each of them also ends there (`session_scopes`).

In contrast to `TreeScript.Proofs.Scoping.Resolution`, nothing is assumed here
of where definitions stand, and nothing of how the statement ends. So the answer
is less exact. If a branch defines a name, one knows after it only that the name
may be there; but that is all that can be lost, and the scopes around are
exactly what they were. This holds of trees that no text leads to as well, since
a caller may execute any.
-/

namespace TreeScript

/-! ## The current scope

Names are counted frame by frame, the innermost first. A block adds one frame
and drops it. -/

namespace Env

/-- The frame of the current scope: that of the innermost block, or the global
one outside all blocks. -/
def current (env : Env) : Frame := env.blocks.headD env.globals

theorem domains_eq_cons (env : Env) :
    env.domains = env.current.defines :: env.domains.tail := by
  unfold domains frames current
  cases env.blocks <;> rfl

@[simp] theorem length_tail_domains (env : Env) :
    env.domains.tail.length = env.blocks.length := by
  simp [domains, frames]

/-- Leaving a block drops the names of the current scope. -/
theorem domains_leave {env : Env} (h : env.blocks ≠ []) :
    env.leave.domains = env.domains.tail := by
  obtain ⟨f, fs, hb⟩ := List.exists_cons_of_ne_nil h
  unfold domains frames leave
  rw [hb]
  rfl

/-! ## How scopes may grow

The relation between the environment in front of a statement and the one behind.
It is kept under composition, with a set of names fixed for the whole sequence.
-/

/-- **The scopes of `after` are those of `env`**, except that the current one
may have more names, all of them among `names`. Values are not compared, only
names. -/
structure Grows (names : List String) (env after : Env) : Prop where
  /-- The scopes around the current one have the same names. -/
  outer : after.domains.tail = env.domains.tail
  /-- The current scope loses no name. -/
  keeps : ∀ name, env.current.defines name → after.current.defines name
  /-- The current scope gains no other names. -/
  gains : ∀ name, after.current.defines name →
    env.current.defines name ∨ name ∈ names

namespace Grows

variable {names more : List String} {env mid after : Env}

theorem length_blocks (h : Grows names env after) :
    after.blocks.length = env.blocks.length := by
  -- The scopes around the current one are as many as there are blocks.
  rw [← length_tail_domains, h.outer, length_tail_domains]

/-- An environment whose frames have the same names has grown by none. -/
theorem of_domains_eq (h : after.domains = env.domains) :
    Grows names env after := by
  have hcurrent : after.current.defines = env.current.defines := by
    have hcons := h
    rw [domains_eq_cons, env.domains_eq_cons] at hcons
    exact (List.cons.inj hcons).1
  refine ⟨by rw [h], fun name hname => ?_, fun name hname => .inl ?_⟩
  · rwa [hcurrent]
  · rwa [← hcurrent]

theorem refl (names : List String) (env : Env) : Grows names env env :=
  of_domains_eq rfl

theorem mono (h : Grows names env after) (hsub : names ⊆ more) :
    Grows more env after where
  outer := h.outer
  keeps := h.keeps
  gains name hname := (h.gains name hname).imp_right (hsub ·)

theorem trans (h : Grows names env mid) (k : Grows names mid after) :
    Grows names env after where
  outer := k.outer.trans h.outer
  keeps name hname := k.keeps name (h.keeps name hname)
  gains name hname := (k.gains name hname).elim (h.gains name) .inr

/-- A definition in the current scope. -/
theorem define (env : Env) (name : String) (v : Value) :
    Grows [name] env (env.define name v) := by
  have hdomains := domains_define env name v
  rw [domains_eq_cons, env.domains_eq_cons, List.modifyHead_cons] at hdomains
  obtain ⟨hcurrent, houter⟩ := List.cons.inj hdomains
  refine ⟨houter, fun other hother => ?_, fun other hother => ?_⟩
  · rw [hcurrent]
    exact Bool.or_eq_true_iff.2 (.inr hother)
  · rw [hcurrent] at hother
    rcases Bool.or_eq_true_iff.1 hother with hname | hold
    · exact .inr (List.mem_singleton.2 (eq_of_beq hname))
    · exact .inl hold

/-- **A block leaves every scope with the names it had**: whatever was defined
inside is dropped with its frame. -/
theorem domains_leave (h : Grows names env.enter after) :
    after.leave.domains = env.domains := by
  have hblocks : after.blocks ≠ [] := by
    rw [← List.length_pos_iff, h.length_blocks]
    exact Nat.succ_pos env.blocks.length
  rw [Env.domains_leave hblocks, h.outer, domains_enter, List.tail_cons]

end Grows

end Env

/-! ## Statements

Sequences and loops keep the relation to the state they began in, which is an
invariant. It is a relation to one fixed state, not between neighbours. -/

/-- An expression adds no name, so what has grown up to it has grown no further.
-/
theorem Machine.grows_eval {names : List String} {env : Env} {m : Machine}
    (h : Env.Grows names env m.env) (e : Expr) :
    Env.Grows names env (m.eval e).2.env :=
  h.trans (.of_domains_eq (e.domains_eval m.env))

theorem Machine.grows_holds {names : List String} {env : Env} {m : Machine}
    (h : Env.Grows names env m.env) (c : Expr) :
    Env.Grows names env (m.holds c).2.env :=
  m.grows_eval h c

namespace Stmt

/-- **The names that a statement defines outside its own blocks.** Both sides of
a branch count, since one of them will be taken. -/
def openNames : Stmt → List String
  | block _ _ | expression _ _ | print _ _ => []
  | branch _ _ t none => t.openNames
  | branch _ _ t (some e) => t.openNames ++ e.openNames
  | define _ name _ => [name.lexeme]
  | loop _ _ body => body.openNames

/-- **However a statement ends, it leaves the scopes in order.** -/
def Orderly (rounds : Nat) (s : Stmt) : Prop :=
  ∀ m, Env.Grows s.openNames m.env (exec rounds s m).2.env

variable {rounds : Nat} {s t : Stmt} {body : List Stmt}

/-- Statements in a list follow each other up to the first that is stopped. -/
theorem grows_execAll (h : ∀ s ∈ body, s.Orderly rounds) (m : Machine) :
    Env.Grows (body.flatMap openNames) m.env (execAll rounds body m).2.env := by
  induction body generalizing m with
  | nil =>
    rw [execAll_nil]
    exact .refl _ _
  | cons s ss ih =>
    obtain ⟨hs, hss⟩ := List.forall_mem_cons.1 h
    rw [List.flatMap_cons, execAll_cons]
    refine andThen_keeps (I := fun m' : Machine => Env.Grows _ m.env m'.env)
      ((hs m).mono (List.subset_append_left _ _)) fun _ m' hm' => ?_
    exact hm'.trans ((ih hss m').mono (List.subset_append_right _ _))

/-- **A block adds no name to any scope.** The inside of the block may have
stopped anywhere, in further blocks as well; each of them has closed its own
scope by then. -/
theorem domains_exec_block (span : Span) (h : ∀ s ∈ body, s.Orderly rounds)
    (m : Machine) :
    (exec rounds (block span body) m).2.env.domains = m.env.domains := by
  rw [exec_block]
  -- However the list was left, its frame is the innermost one.
  exact Env.Grows.domains_leave (grows_execAll h m.enter)

theorem orderly_expression (span : Span) (e : Expr) :
    (expression span e).Orderly rounds := by
  intro m
  rw [exec_expression]
  exact andThen_keeps (I := fun m' : Machine => Env.Grows [] m.env m'.env)
    (m.grows_eval (.refl _ _) e) fun _ _ hm' => hm'

theorem orderly_print (span : Span) (e : Expr) :
    (print span e).Orderly rounds := by
  intro m
  rw [exec_print]
  exact andThen_keeps (I := fun m' : Machine => Env.Grows [] m.env m'.env)
    (m.grows_eval (.refl _ _) e) fun _ _ hm' => hm'

/-- One name is added, and none if the initial value fails. -/
theorem orderly_define (span : Span) (name : Token) (initial : Option Expr) :
    (define span name initial).Orderly rounds := by
  intro m
  rw [exec_define]
  refine andThen_keeps
    (I := fun m' : Machine => Env.Grows [name.lexeme] m.env m'.env) ?_
    fun v m' hm' => hm'.trans (.define m'.env name.lexeme v)
  cases initial with
  | none => exact .refl _ _
  | some e => exact m.grows_eval (.refl _ _) e

/-- The names of both sides are allowed, as either may be taken. -/
theorem orderly_branch (span : Span) (c : Expr) {e : Option Stmt}
    (ht : t.Orderly rounds) (he : ∀ s ∈ e, s.Orderly rounds) :
    (branch span c t e).Orderly rounds := by
  intro m
  rw [exec_branch]
  refine andThen_keeps (I := fun m' : Machine => Env.Grows _ m.env m'.env)
    (m.grows_holds (.refl _ _) c) fun holds m' hm' => ?_
  cases holds with
  | true =>
    refine hm'.trans ((ht m').mono ?_)
    cases e with
    | none => exact List.Subset.refl _
    | some s => exact List.subset_append_left _ _
  | false =>
    cases e with
    | none => exact hm'
    | some s =>
      exact hm'.trans ((he s rfl m').mono (List.subset_append_right _ _))

/-- Every round adds at most the names of the body. -/
theorem orderly_loop (span : Span) (c : Expr) (h : s.Orderly rounds) :
    (loop span c s).Orderly rounds := by
  intro m
  rw [exec_loop]
  exact whileLoop_keeps
    (I := fun m' : Machine => Env.Grows s.openNames m.env m'.env)
    (fun m' hm' => m'.grows_holds hm' c) (fun m' hm' => hm'.trans (h m')) rounds
    (.refl _ _)

/-- **Every statement leaves the scopes in order**, whatever its form and
however it ends. No assumption on the form of the statement is left: a branch
that defines a name is covered as well as one that does not. -/
theorem orderly (rounds : Nat) (s : Stmt) : s.Orderly rounds := by
  induction s with
  | block span body ih =>
    exact fun m => .of_domains_eq (domains_exec_block span ih m)
  | expression span e => exact orderly_expression span e
  | branch span c t e iht ihe => exact orderly_branch span c iht ihe
  | print span e => exact orderly_print span e
  | define span name e => exact orderly_define span name e
  | loop span c body ih => exact orderly_loop span c ih

end Stmt

/-! ## Sessions

Three kinds of calls reach the interpreter from outside. None of them leaves a
block open, so the next one finds the global scope. -/

/-- **A call from outside.** -/
inductive Call where
  /-- Executes statements up to the first that is stopped. -/
  | interpret (statements : List Stmt)
  /-- Executes one statement. -/
  | execute (statement : Stmt)
  /-- Evaluates an expression. -/
  | evaluate (value : Expr)

namespace Call

/-- **Performs a call**: the state that it leaves, whatever its result. The
error that stops statements is reported. -/
def perform (rounds : Nat) : Call → Machine → Machine
  | interpret statements, m =>
    let start := m.emit (.noted (.interpreting statements.length))
    match Stmt.execAll rounds statements start with
    | (.ok (), m) => m
    | (.error h, m) => { m with events := m.events ++ h.events.toArray }
  | execute s, m => (s.exec rounds m).2
  | evaluate e, m => (m.eval e).2

/-- A call ends in as many blocks as it begins in. -/
theorem length_blocks_perform (rounds : Nat) (c : Call) (m : Machine) :
    (c.perform rounds m).env.blocks.length = m.env.blocks.length := by
  cases c with
  | interpret statements =>
    have h := (Stmt.grows_execAll
      (fun s (_ : s ∈ statements) => s.orderly rounds)
      (m.emit (.noted (.interpreting statements.length)))).length_blocks
    unfold perform
    dsimp only
    split <;> rename_i heq <;> rw [heq] at h <;> exact h
  | execute s => exact (s.orderly rounds m).length_blocks
  | evaluate e =>
    exact (m.grows_eval (.refl [] m.env) e).length_blocks

end Call

/-- **Running a source text is a call**: its statements are interpreted behind
the events of reading it. So what is shown of calls holds of runs, and a session
may mix both. -/
theorem SourceText.run_eq_perform (source : SourceText) (rounds : Nat)
    (env : Env) :
    ∃ before after : Array Event,
      let m := (Call.interpret source.read.statements).perform rounds
        ⟨env, before⟩
      (source.run rounds env).env = m.env
        ∧ (source.run rounds env).events = m.events ++ after := by
  let before := source.read.events
    ++ (source.read.announcement source.name).dropLast
  have hbefore : (source.read.events ++ source.read.announcement source.name)
      = before ++ [.noted (.interpreting source.read.statements.length)] := by
    simp [before, Reading.announcement]
  refine ⟨before.toArray, ?_⟩
  unfold run Call.perform Machine.emit
  dsimp only
  rw [hbefore, List.push_toArray]
  split
  · rename_i heq
    rw [heq]
    exact ⟨_, rfl, rfl⟩
  · rename_i h m heq
    rw [heq]
    dsimp only [closingEvents]
    rw [← List.append_toArray, ← Array.append_assoc]
    exact ⟨_, rfl, rfl⟩

/-- The state after calls, each with its own bound on the rounds of loops. -/
def Machine.after (m : Machine) (calls : List (Nat × Call)) : Machine :=
  calls.foldl (fun m (rounds, c) => c.perform rounds m) m

theorem length_blocks_after (m : Machine) (calls : List (Nat × Call)) :
    (m.after calls).env.blocks.length = m.env.blocks.length := by
  induction calls generalizing m with
  | nil => rfl
  | cons rc calls ih =>
    obtain ⟨rounds, c⟩ := rc
    exact (ih (c.perform rounds m)).trans (c.length_blocks_perform rounds m)

/-- A source text that is run in the global scope ends there. -/
theorem SourceText.blocks_run (source : SourceText) (rounds : Nat)
    (globals : Frame) : (source.run rounds ⟨[], globals⟩).env.blocks = [] := by
  obtain ⟨before, after, henv, -⟩ := source.run_eq_perform rounds ⟨[], globals⟩
  rw [henv]
  exact List.length_eq_zero_iff.1 (Call.length_blocks_perform rounds _ _)

/-- **Scope discipline.** A session that starts in the global scope is in the
global scope after every call, whatever the calls are and however they end, and
so it is after a source text is run. A single statement, executed in any scope
and with any result, leaves the current scope what it was, every scope around it
with exactly its names, and the current scope with its names and at most those
that the statement defines outside its own blocks; a block adds no name at all.
Evaluating an expression changes the names of no scope. -/
theorem session_scopes :
    (∀ (globals : Frame) (events : Array Event) (calls : List (Nat × Call)),
      (Machine.after ⟨⟨[], globals⟩, events⟩ calls).env.blocks = [])
    ∧ (∀ (source : SourceText) (rounds : Nat) (globals : Frame),
      (source.run rounds ⟨[], globals⟩).env.blocks = [])
    ∧ (∀ (rounds : Nat) (s : Stmt) (m : Machine),
      let after := (s.exec rounds m).2.env
      after.blocks.length = m.env.blocks.length
        ∧ after.domains.tail = m.env.domains.tail
        ∧ (∀ name, m.env.current.defines name → after.current.defines name)
        ∧ ∀ name, after.current.defines name →
            m.env.current.defines name ∨ name ∈ s.openNames)
    ∧ (∀ (rounds : Nat) (span : Span) (body : List Stmt) (m : Machine),
      ((Stmt.block span body).exec rounds m).2.env.domains = m.env.domains)
    ∧ ∀ (e : Expr) (env : Env), (e.eval env).2.domains = env.domains := by
  refine ⟨?_, SourceText.blocks_run, ?_, ?_, Expr.domains_eval⟩
  · intro globals events calls
    exact List.length_eq_zero_iff.1 (length_blocks_after _ calls)
  · intro rounds s m
    have h := s.orderly rounds m
    exact ⟨h.length_blocks, h.outer, h.keeps, h.gains⟩
  · intro rounds span body m
    exact Stmt.domains_exec_block span (fun s _ => s.orderly rounds) m

end TreeScript
