import TreeScript.Proofs.Exec.Steps
import TreeScript.Proofs.Scoping.Lookup

/-!
# Frames without names

A frame without names is not seen by anything that runs inside it: names are
looked up and assigned to in the frames around it, and definitions go to the
innermost frame. Two runs from states that differ only by such a frame go side by
side, through all blocks, loops and errors, and end in states that again differ
only by this frame (`Stmt.WellPlaced.parallel`).

The only way to notice the frame is to define a name in it. So the statement that
runs must not be a definition itself, unless a further frame lies inside.

The relation `Env.Padded k` says where the frame lies: behind the `k` innermost
frames of the environment. Entering a block makes `k` greater by one and leaving
it makes it smaller, so that for `k = 0` the frame is the innermost one and the
two environments differ by just the frame that `leave` removes. Evaluation does
not depend on `k`; only a definition needs `0 < k`.

Evaluation itself is treated more generally (`Env.Alike`), for any relation
between environments that the names of the expression do not tell apart. The
frames of this module are one instance, and a smaller set of names is another.
-/

namespace TreeScript

/-! ## Environments

Looking up a name passes the frame, as it holds none; so does an assignment. The
cases are those of where the name is found: in the frames further inside, in
those further out, or in the globals. -/

namespace Env

/-- **`env'` is `env` with a frame without names** behind its `k` innermost
frames. It is at the same depth in front of and behind every step, because all
frames inside are entered and left. -/
inductive Padded (k : Nat) : Env → Env → Prop
  | mk {inner outer : List Frame} {globals : Frame} (h : inner.length = k) :
      Padded k ⟨inner ++ outer, globals⟩ ⟨inner ++ .empty :: outer, globals⟩

theorem padded_enter (env : Env) : Padded 0 env env.enter :=
  @Padded.mk 0 [] env.blocks env.globals rfl

/-- An assignment changes a frame, not their number, so that the frame without
names stays at its place. -/
theorem length_overwriteFrames {name : String} {v : Value}
    {fs gs : List Frame} (h : overwriteFrames name v fs = some gs) :
    gs.length = fs.length := by
  rw [overwriteFrames_eq] at h
  obtain ⟨i, -, rfl⟩ := Option.map_eq_some_iff.1 h
  exact List.length_modify _ _ _

namespace Padded

variable {k : Nat} {env env' : Env}

theorem find? (h : Padded k env env') (name : String) :
    env'.find? name = env.find? name := by
  obtain ⟨h⟩ := h
  unfold Env.find?
  simp [List.findSome?_append, List.findSome?_cons]

/-- Assignments pass the frame by. -/
theorem overwrite? (h : Padded k env env') (name : String) (v : Value) :
    (env.overwrite? name v = none ∧ env'.overwrite? name v = none)
      ∨ ∃ after after', env.overwrite? name v = some after
        ∧ env'.overwrite? name v = some after' ∧ Padded k after after' := by
  obtain @⟨inner, outer, globals, h⟩ := h
  have hempty : overwriteFrames name v (.empty :: outer)
      = (overwriteFrames name v outer).map (.empty :: ·) := rfl
  unfold Env.overwrite?
  simp only [overwriteFrames_append, hempty]
  -- The frames are tried from the inside, and the first that has the name ends
  -- the search: before the frame without names, behind it, or in the globals.
  cases hi : overwriteFrames name v inner with
  | some inner' =>
    exact .inr ⟨_, _, rfl, rfl, .mk ((length_overwriteFrames hi).trans h)⟩
  | none =>
    cases overwriteFrames name v outer with
    | some outer' => exact .inr ⟨_, _, rfl, rfl, .mk h⟩
    | none =>
      by_cases hg : globals.defines name
      · simp only [hg, if_true]
        exact .inr ⟨_, _, rfl, rfl, .mk h⟩
      · simp only [hg]
        exact .inl ⟨rfl, rfl⟩

theorem enter (h : Padded k env env') :
    Padded (k + 1) env.enter env'.enter := by
  obtain @⟨inner, outer, globals, h⟩ := h
  exact @Padded.mk _ (.empty :: inner) outer globals (congrArg (· + 1) h)

theorem leave (h : Padded (k + 1) env env') :
    Padded k env.leave env'.leave := by
  obtain @⟨inner, outer, globals, h⟩ := h
  obtain ⟨f, fs, rfl⟩ := List.exists_cons_of_length_eq_add_one h
  exact .mk (Nat.succ.inj h)

/-- A definition goes to a frame further inside, if there is one. -/
theorem define (h : Padded (k + 1) env env') (name : String) (v : Value) :
    Padded (k + 1) (env.define name v) (env'.define name v) := by
  obtain @⟨inner, outer, globals, h⟩ := h
  obtain ⟨f, fs, rfl⟩ := List.exists_cons_of_length_eq_add_one h
  exact @Padded.mk _ (f.define name v :: fs) outer globals h

/-- If the frame is the innermost one, leaving it makes the environments equal.
-/
theorem leave_eq (h : Padded 0 env env') : env'.leave = env := by
  obtain @⟨inner, outer, globals, h⟩ := h
  obtain rfl := List.length_eq_zero_iff.1 h
  rfl

end Padded

end Env

/-! ## Steps side by side

Here even the errors are the same, with their places, which is `Abreast` for the
identity as view of the errors. The rules are inherited from there. -/

section Beside

variable {ε α β σ : Type} {R : σ → σ → Prop}

/-- **Two steps go side by side**: they have the same result, and their states
are related. -/
def Beside (R : σ → σ → Prop) (p p' : Except ε α × σ) : Prop :=
  p'.1 = p.1 ∧ R p.2 p'.2

theorem beside_iff_abreast {p p' : Except ε α × σ} :
    Beside R p p' ↔ Abreast id R p p' := by
  have hid (r : Except ε α) : r.mapError id = r := by cases r <;> rfl
  unfold Beside Abreast
  rw [hid, hid]

theorem Beside.andThen {p p' : Except ε α × σ} {f f' : α → σ → Except ε β × σ}
    (h : Beside R p p') (hf : ∀ a s s', R s s' → Beside R (f a s) (f' a s')) :
    Beside R (andThen p f) (andThen p' f') :=
  beside_iff_abreast.2 ((beside_iff_abreast.1 h).andThen fun a s s' hs =>
    beside_iff_abreast.1 (hf a s s' hs))

end Beside

/-- **Related environments are alike under names that satisfy `P`**: such a name
has the same value in both, and after an assignment to it they are related
again. -/
structure Env.Alike (P : String → Prop) (R : Env → Env → Prop) : Prop where
  /-- The name is read alike. -/
  find? {env env' : Env} {name : String} : R env env' → P name →
    env'.find? name = env.find? name
  /-- The name is assigned to alike. -/
  overwrite? {env env' : Env} {name : String} : R env env' → P name →
    ∀ v : Value, (env.overwrite? name v = none ∧ env'.overwrite? name v = none)
      ∨ ∃ after after', env.overwrite? name v = some after
        ∧ env'.overwrite? name v = some after' ∧ R after after'

/-- **Evaluating goes side by side** in environments that are alike under the
names of the expression. Reading and assigning to names is all that evaluation
does with an environment, so these two are all that is asked of the relation. -/
theorem Env.Alike.beside_eval {P : String → Prop} {R : Env → Env → Prop}
    (hR : Env.Alike P R) {e : Expr} (he : ∀ name ∈ e.names, P name)
    {env env' : Env} (h : R env env') :
    Beside R (e.eval env) (e.eval env') := by
  induction e generalizing env env' with
  | literal t => exact ⟨rfl, h⟩
  | reference name =>
    unfold Expr.eval
    rw [hR.find? h (he _ (List.mem_singleton_self _))]
    cases env.find? name.lexeme with
    | some v => exact ⟨rfl, h⟩
    | none => exact ⟨rfl, h⟩
  | grouping e ih => exact ih he h
  | unary op e ih =>
    rw [Expr.eval_unary, Expr.eval_unary]
    exact (ih he h).andThen fun v _ _ h => ⟨rfl, h⟩
  | binary op l r ihl ihr =>
    obtain ⟨hl, hr⟩ := List.forall_mem_append.1 he
    rw [Expr.eval_binary, Expr.eval_binary]
    exact (ihl hl h).andThen fun x _ _ h =>
      (ihr hr h).andThen fun y _ _ h => ⟨rfl, h⟩
  | assign name e ih =>
    obtain ⟨hname, he⟩ := List.forall_mem_cons.1 he
    rw [Expr.eval_assign, Expr.eval_assign]
    refine (ih he h).andThen fun v env env' h => ?_
    unfold Expr.store
    rcases hR.overwrite? h hname v with ⟨ho, ho'⟩ | ⟨after, after', ho, ho', ha⟩
    · rw [ho, ho']
      exact ⟨rfl, h⟩
    · rw [ho, ho']
      exact ⟨rfl, ha⟩

theorem Expr.beside_eval {k : Nat} {env env' : Env} (h : env.Padded k env')
    (e : Expr) : Beside (Env.Padded k) (e.eval env) (e.eval env') := by
  have halike : Env.Alike (fun _ => True) (Env.Padded k) :=
    ⟨fun h _ => h.find? _, fun h _ v => h.overwrite? _ v⟩
  exact halike.beside_eval (fun _ _ => trivial) h

namespace Machine

/-- The states differ by a frame without names only. -/
structure Padded (k : Nat) (m m' : Machine) : Prop where
  /-- The frame lies behind the `k` innermost ones. -/
  env : m.env.Padded k m'.env
  /-- The same was let known. -/
  events : m'.events = m.events

/-- As for environments: entering a scope says nothing to the reader of the
events. -/
theorem padded_enter (m : Machine) : Padded 0 m m.enter :=
  ⟨m.env.padded_enter, rfl⟩

namespace Padded

variable {k : Nat} {m m' : Machine}

/-- Leaving the innermost frame makes the states equal. -/
theorem leave_eq (h : Padded 0 m m') : m'.leave = m := by
  obtain ⟨henv, hevents⟩ := h
  unfold leave
  rw [henv.leave_eq, hevents]

theorem emit (h : Padded k m m') (e : Event) : Padded k (m.emit e) (m'.emit e) :=
  ⟨h.env, congrArg (·.push e) h.events⟩

/-- A definition is noted in both, under the same name and with the same value.
-/
theorem define (h : Padded (k + 1) m m') (name : String) (v : Value) :
    Padded (k + 1) (m.define name v) (m'.define name v) :=
  ⟨h.env.define name v,
    congrArg (·.push (.noted (.defined name v))) h.events⟩

/-- Evaluating an expression adds no events, so this is the statement for
environments. -/
theorem eval (h : Padded k m m') (e : Expr) :
    Beside (Padded k) (m.eval e) (m'.eval e) := by
  obtain ⟨hr, henv⟩ := e.beside_eval h.env
  exact ⟨congrArg (Except.mapError Halt.error) hr, henv, h.events⟩

theorem holds (h : Padded k m m') (c : Expr) :
    Beside (Padded k) (m.holds c) (m'.holds c) := by
  rw [holds_eq, holds_eq]
  exact (h.eval c).andThen fun _ _ _ h => ⟨rfl, h⟩

end Padded

end Machine

/-! ## Runs side by side

One lemma for each form of statement, and the induction that puts them together.
It is an induction on how statements are placed, not on the tree alone: where a
definition may stand is what keeps the frame empty. -/

/-- Loops take the same number of rounds, since their tests go side by side. -/
theorem beside_whileLoop {R : Machine → Machine → Prop}
    {test : Machine → Except Halt Bool × Machine}
    {body : Machine → Except Halt Unit × Machine}
    (htest : ∀ m m', R m m' → Beside R (test m) (test m'))
    (hbody : ∀ m m', R m m' → Beside R (body m) (body m')) (n : Nat)
    {m m' : Machine} (h : R m m') :
    Beside R (whileLoop test body n m) (whileLoop test body n m') :=
  beside_iff_abreast.2 (abreast_whileLoop
    (fun m m' h => beside_iff_abreast.1 (htest m m' h))
    (fun m m' h => beside_iff_abreast.1 (hbody m m' h)) n h)

namespace Stmt

/-- The statement does not notice a frame without names behind the `k` innermost
ones. -/
def Parallel (rounds k : Nat) (s : Stmt) : Prop :=
  ∀ ⦃m m' : Machine⦄, m.Padded k m' →
    Beside (Machine.Padded k) (exec rounds s m) (exec rounds s m')

variable {rounds k : Nat} {s : Stmt} {body : List Stmt} {m m' : Machine}

/-- The frame lies behind the same `k` frames before each statement of a list,
as every statement leaves the scopes it has entered. -/
theorem parallel_execAll (h : ∀ s ∈ body, s.Parallel rounds k)
    (hm : m.Padded k m') :
    Beside (Machine.Padded k) (execAll rounds body m)
      (execAll rounds body m') := by
  induction body generalizing m m' with
  | nil =>
    rw [execAll_nil, execAll_nil]
    exact ⟨rfl, hm⟩
  | cons s ss ih =>
    obtain ⟨hs, hss⟩ := List.forall_mem_cons.1 h
    rw [execAll_cons, execAll_cons]
    exact (hs hm).andThen fun _ _ _ hm => ih hss hm

/-- Inside a block the frame is one frame further out. -/
theorem parallel_block (span : Span)
    (h : ∀ s ∈ body, s.Parallel rounds (k + 1)) :
    (block span body).Parallel rounds k := by
  intro m m' hm
  have hm' : m.enter.Padded (k + 1) m'.enter := ⟨hm.env.enter, hm.events⟩
  obtain ⟨hr, hb⟩ := parallel_execAll h hm'
  rw [exec_block, exec_block]
  exact ⟨hr, hb.env.leave, hb.events⟩

/-- Which side is taken does not depend on the frame. -/
theorem parallel_branch (span : Span) (c : Expr) {t : Stmt} {e : Option Stmt}
    (ht : t.Parallel rounds k) (he : ∀ s ∈ e, s.Parallel rounds k) :
    (branch span c t e).Parallel rounds k := by
  intro m m' hm
  rw [exec_branch, exec_branch]
  refine (hm.holds c).andThen fun holds m m' hm => ?_
  cases holds with
  | true => exact ht hm
  | false =>
    cases e with
    | none => exact ⟨rfl, hm⟩
    | some s => exact he s rfl hm

/-- A definition goes to one of the `k + 1` frames further inside, the innermost
one. Without such a frame it would define its name in the frame in question. -/
theorem parallel_define (span : Span) (name : Token) (initial : Option Expr) :
    (define span name initial).Parallel rounds (k + 1) := by
  intro m m' hm
  rw [exec_define, exec_define]
  refine Beside.andThen ?_ fun v m m' hm => ⟨rfl, hm.define name.lexeme v⟩
  cases initial with
  | none => exact ⟨rfl, hm⟩
  | some e => exact hm.eval e

/-- The state of the loop is related before each round. -/
theorem parallel_loop (span : Span) (c : Expr) (h : s.Parallel rounds k) :
    (loop span c s).Parallel rounds k := by
  intro m m' hm
  rw [exec_loop, exec_loop]
  exact beside_whileLoop (fun _ _ hm => hm.holds c) (fun _ _ hm => h hm) rounds
    hm

/-- **A statement that cannot define a name in the frame does not notice it.**
The number of frames further inside is general in the induction: a block makes
it greater by one, and behind a block it is what it was. -/
theorem WellPlaced.parallel (h : s.WellPlaced) (k : Nat)
    (hk : k = 0 → s.definedName? = none) : s.Parallel rounds k := by
  induction h generalizing k with
  -- Inside a block a definition has a frame further inside to go to.
  | block _ ih => exact parallel_block _ fun s hs => ih s hs (k + 1) nofun
  | expression =>
    intro m m' hm
    rw [exec_expression, exec_expression]
    exact (hm.eval _).andThen fun _ _ _ hm => ⟨rfl, hm⟩
  | branch _ hn _ hns iht ihe =>
    exact parallel_branch _ _ (iht k fun _ => hn)
      fun s hs => ihe s hs k fun _ => hns s hs
  | print =>
    intro m m' hm
    rw [exec_print, exec_print]
    exact (hm.eval _).andThen fun v _ _ hm => ⟨rfl, hm.emit _⟩
  | define =>
    cases k with
    -- The frame is the innermost one, and the statement is no definition.
    | zero => exact absurd (hk rfl) nofun
    | succ k => exact parallel_define _ _ _
  | loop _ hn ih => exact parallel_loop _ _ (ih k fun _ => hn)

end Stmt

end TreeScript
