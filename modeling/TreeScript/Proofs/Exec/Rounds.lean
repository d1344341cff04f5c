import TreeScript.Proofs.Exec.Steps

/-!
# Bounds on rounds

Execution is told how many rounds a loop may take, and a loop that takes more is
cut off. The bound is only a way to speak of scripts that may not end: what is
not cut off happens in the same way under every greater bound
(`Stmt.completes_exec`). So from some bound on a statement always does the same,
or it is cut off by every bound (`Stmt.diverges_or_settles`), and likewise a list
of statements.

The argument is the usual one for a bounded evaluator. "Being cut off" is the
only answer that a greater bound may change, so the answers under growing bounds
are constant once they are not that one. The relation `Completes` states this
for two bounds, and passes through sequences and loops as an invariant does.

Nothing here decides whether a script ends: `Diverges` and `Settles` are
properties of all bounds, and that one of them holds is a use of excluded
middle.
-/

namespace TreeScript

section Completes

variable {α β : Type}

/-- **`q` completes `r`**: it is the same unless `r` was cut off. Nothing is
asked if `r` was cut off, since a greater bound may do anything then. -/
def Completes (q r : Except Halt α × Machine) : Prop :=
  r.1 ≠ .error .tooManyRounds → q = r

/-- What is done in one way only completes itself: the steps that take no bound.
-/
theorem Completes.refl (r : Except Halt α × Machine) : Completes r r :=
  fun _ => rfl

/-- Two steps are cut off if the first one is, or if it succeeds and the second
one is. -/
theorem Completes.andThen {q r : Except Halt α × Machine}
    {f g : α → Machine → Except Halt β × Machine} (h : Completes q r)
    (hf : ∀ a m, Completes (f a m) (g a m)) :
    Completes (andThen q f) (andThen r g) := by
  intro hcut
  match r with
  | (.ok a, m) =>
    rw [h nofun]
    exact hf a m hcut
  | (.error e, m) =>
    have he : e ≠ .tooManyRounds := fun he => hcut (congrArg Except.error he)
    rw [h fun heq => he (Except.error.inj heq)]
    rfl

end Completes

/-- **A loop that may take more rounds completes one that may take fewer**, if
its body completes the other's. The induction is on the smaller bound; the
greater one always has a round left when the smaller one has. -/
theorem completes_whileLoop {test : Machine → Except Halt Bool × Machine}
    {body more : Machine → Except Halt Unit × Machine}
    (h : ∀ m, Completes (more m) (body m)) {n k : Nat} (hle : n ≤ k)
    (m : Machine) :
    Completes (whileLoop test more k m) (whileLoop test body n m) := by
  induction n generalizing k m with
  | zero => exact fun hcut => absurd rfl hcut
  | succ n ih =>
    -- The greater bound allows a first round too, and has at least `n` left.
    obtain ⟨k, rfl⟩ := Nat.exists_eq_add_of_lt hle
    rw [whileLoop_succ, whileLoop_succ]
    refine (Completes.refl _).andThen fun goesOn m => ?_
    cases goesOn with
    | false => exact .refl _
    | true => exact (h m).andThen fun _ m => ih (Nat.le_add_right n k) m

namespace Stmt

variable {n k : Nat}

/-- Lists of statements, if each of their statements does. The state after a
statement is the same in both runs, or the shorter one was cut off in it. -/
theorem completes_execAll {body : List Stmt}
    (h : ∀ s ∈ body, ∀ m, Completes (exec k s m) (exec n s m)) (m : Machine) :
    Completes (execAll k body m) (execAll n body m) := by
  induction body generalizing m with
  | nil =>
    rw [execAll_nil, execAll_nil]
    exact .refl _
  | cons s ss ih =>
    obtain ⟨hs, hss⟩ := List.forall_mem_cons.1 h
    rw [execAll_cons, execAll_cons]
    exact (hs m).andThen fun _ m => ih hss m

/-- **What a statement does without being cut off, it does under every greater
bound.** Only a loop uses the bound, and all loops of a statement get the same
one. -/
theorem completes_exec (hle : n ≤ k) (s : Stmt) (m : Machine) :
    Completes (exec k s m) (exec n s m) := by
  induction s generalizing m with
  | block span body ih =>
    rw [exec_block, exec_block]
    intro hcut
    -- A block is cut off just when its statements are.
    rw [completes_execAll ih m.enter hcut]
  | expression span e =>
    rw [exec_expression, exec_expression]
    exact .refl _
  | branch span c t e iht ihe =>
    rw [exec_branch, exec_branch]
    refine (Completes.refl _).andThen fun holds m => ?_
    cases holds with
    | true => exact iht m
    | false =>
      cases e with
      | none => exact .refl _
      | some s => exact ihe s rfl m
  | print span e =>
    rw [exec_print, exec_print]
    exact .refl _
  | define span name e =>
    rw [exec_define, exec_define]
    exact .refl _
  | loop span c body ih =>
    rw [exec_loop, exec_loop]
    exact completes_whileLoop ih hle m

end Stmt

/-! ## Without a bound

What is claimed of a run "that ends", or of two runs that "end alike or both go
on forever", is written with these two properties. -/

/-- **Every bound cuts the execution off.** -/
def Diverges (f : Nat → Except Halt Unit × Machine) : Prop :=
  ∀ rounds, (f rounds).1 = .error .tooManyRounds

/-- **The execution ends** with a result and in a state: from some bound on it
always does. The bound that is enough may depend on the state in which the
execution begins. -/
def Settles (f : Nat → Except Halt Unit × Machine)
    (r : Except RuntimeError Unit) (m : Machine) : Prop :=
  ∃ enough, ∀ rounds, enough ≤ rounds → f rounds = (r.mapError .error, m)

/-- **What a greater bound only completes either goes on forever or ends** in
one way. If some bound does not cut the execution off, every greater one leads
to the same result, so this bound is enough. -/
theorem diverges_or_settles_of_completes {f : Nat → Except Halt Unit × Machine}
    (h : ∀ n k, n ≤ k → Completes (f k) (f n)) :
    Diverges f ∨ ∃ r m, Settles f r m := by
  -- Whether a script ends is not decidable, so this is a classical case
  -- distinction.
  by_cases hd : Diverges f
  · exact .inl hd
  refine .inr ?_
  obtain ⟨n, hn⟩ := Classical.not_forall.1 hd
  -- The first bound that does not cut the execution off is bound enough.
  have hsame : ∀ k, n ≤ k → f k = f n := fun k hle => h n k hle hn
  match hr : f n with
  | (.ok (), m) => exact ⟨.ok (), m, n, fun k hle => (hsame k hle).trans hr⟩
  | (.error (.error e), m) =>
    exact ⟨.error e, m, n, fun k hle => (hsame k hle).trans hr⟩
  | (.error .tooManyRounds, m) => exact absurd (congrArg Prod.fst hr) hn

/-- **A statement either goes on forever or ends** in one way. There is no third
way, such as results that go on changing with the bound. -/
theorem Stmt.diverges_or_settles (s : Stmt) (m : Machine) :
    Diverges (exec · s m) ∨ ∃ r m', Settles (exec · s m) r m' :=
  diverges_or_settles_of_completes fun _ _ hle => completes_exec hle s m

theorem Stmt.diverges_or_settles_all (ss : List Stmt) (m : Machine) :
    Diverges (execAll · ss m) ∨ ∃ r m', Settles (execAll · ss m) r m' :=
  diverges_or_settles_of_completes fun _ _ hle =>
    completes_execAll (fun s _ m => completes_exec hle s m) m

end TreeScript
