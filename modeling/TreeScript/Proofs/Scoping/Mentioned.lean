import TreeScript.Proofs.Exec.Diagnostics
import TreeScript.Proofs.Exec.Padding
import TreeScript.Proofs.Exec.Rounds

/-!
# The variables that a program mentions

A program reads and changes only the variables it mentions. Let `N` be names
among which are all that a program mentions. Two runs of the program, from
global scopes that have the same values under the names in `N`, go side by side:
through shadowing blocks, assignments that walk outwards, loops and errors.

What relates the two runs is `Env.AgreeOn`. The scopes of blocks hold only what
the program itself has put there, so they are the same in both. The global
scopes have the same values inside `N`, and outside `N` each has the values it
had at the start.

The theorem is about names, not about positions of variables, so no renaming and
no closure under substitution is involved. Only evaluation reads names, and
evaluation in related environments was treated before (`Env.Alike`): what is
added here is the relation, that all acts on scopes keep it for names in `N`,
and that nothing else is ever defined or assigned to.
-/

namespace TreeScript

/-! ## Environments that agree on names

The relation on environments, and what defining, assigning, entering and leaving
do to it. -/

namespace Env

/-- **The environments agree on `N`**, and each has kept its other globals: they
are those of `g` and of `g'`. The blocks were all made by the program, so they
are equal and not only alike. -/
structure AgreeOn (N : String → Prop) (g g' : Frame) (env env' : Env) :
    Prop where
  /-- The blocks have the same names and values. -/
  blocks : env'.blocks = env.blocks
  /-- The globals in `N` have the same values, or are missing in both. -/
  inside : ∀ name, N name → env'.global? name = env.global? name
  /-- The other globals of the first are those it had. -/
  outside : ∀ name, ¬ N name → env.global? name = g.find? name
  /-- And so are those of the second. -/
  outside' : ∀ name, ¬ N name → env'.global? name = g'.find? name

namespace AgreeOn

variable {N : String → Prop} {g g' : Frame} {env env' : Env} {name : String}

/-- At the start there are no blocks, and the globals outside `N` are what they
are. -/
theorem of_globals (h : ∀ name, N name → g'.find? name = g.find? name) :
    AgreeOn N g g' ⟨[], g⟩ ⟨[], g'⟩ :=
  ⟨rfl, h, fun _ _ => rfl, fun _ _ => rfl⟩

theorem find? (h : AgreeOn N g g' env env') (hn : N name) :
    env'.find? name = env.find? name := by
  show (env'.blocks.findSome? _).or (env'.global? name) = _
  rw [h.blocks, h.inside name hn]
  rfl

/-- A global in `N` may get a new value in both. -/
theorem defineGlobal (h : AgreeOn N g g' env env') (hn : N name) (v : Value) :
    AgreeOn N g g' ⟨env.blocks, env.globals.define name v⟩
      ⟨env.blocks, env'.globals.define name v⟩ := by
  have hother {other : String} (ho : ¬ N other) : other ≠ name := by
    rintro rfl
    exact ho hn
  refine ⟨rfl, fun other ho => ?_, fun other ho => ?_, fun other ho => ?_⟩
  · show (env'.globals.define name v).find? other
      = (env.globals.define name v).find? other
    rw [Frame.find?_define, Frame.find?_define]
    exact congrArg (ite _ _) (h.inside other ho)
  · show (env.globals.define name v).find? other = _
    rw [Frame.find?_define_of_ne _ v (hother ho)]
    exact h.outside other ho
  · show (env'.globals.define name v).find? other = _
    rw [Frame.find?_define_of_ne _ v (hother ho)]
    exact h.outside' other ho

/-- A definition goes to the innermost block, the same in both, or to the
globals. -/
theorem define (h : AgreeOn N g g' env env') (hn : N name) (v : Value) :
    AgreeOn N g g' (env.define name v) (env'.define name v) := by
  unfold Env.define
  rw [h.blocks]
  split
  · exact h.defineGlobal hn v
  · exact ⟨rfl, h.inside, h.outside, h.outside'⟩

/-- An assignment to a name in `N` finds the name in the same block of both, or
in both global scopes, or in neither. -/
theorem overwrite? (h : AgreeOn N g g' env env') (hn : N name) (v : Value) :
    (env.overwrite? name v = none ∧ env'.overwrite? name v = none)
      ∨ ∃ after after', env.overwrite? name v = some after
        ∧ env'.overwrite? name v = some after' ∧ AgreeOn N g g' after after' := by
  have hdefines : env'.globals.defines name = env.globals.defines name :=
    congrArg Option.isSome (h.inside name hn)
  unfold Env.overwrite?
  -- The walk through the blocks is the same, so the only question is whether
  -- the globals have the name.
  rw [h.blocks, hdefines]
  cases overwriteFrames name v env.blocks with
  | some fs =>
    exact .inr ⟨_, _, rfl, rfl, rfl, h.inside, h.outside, h.outside'⟩
  | none =>
    cases env.globals.defines name with
    | true => exact .inr ⟨_, _, rfl, rfl, h.defineGlobal hn v⟩
    | false => exact .inl ⟨rfl, rfl⟩

theorem alike : Env.Alike N (AgreeOn N g g') :=
  ⟨fun h hn => h.find? hn, fun h hn v => h.overwrite? hn v⟩

theorem enter (h : AgreeOn N g g' env env') :
    AgreeOn N g g' env.enter env'.enter :=
  ⟨congrArg (Frame.empty :: ·) h.blocks, h.inside, h.outside, h.outside'⟩

theorem leave (h : AgreeOn N g g' env env') :
    AgreeOn N g g' env.leave env'.leave :=
  ⟨congrArg List.tail h.blocks, h.inside, h.outside, h.outside'⟩

end AgreeOn

end Env

/-! ## States that agree on names

With the events: the two runs may begin behind different ones, but what they let
known is the same. -/

namespace Machine

/-- **The states agree on `N`**: their scopes do, and the same was let known since
the events `a` and `b`. -/
structure AgreeOn (N : String → Prop) (g g' : Frame) (a b : Array Event)
    (m m' : Machine) : Prop where
  /-- The scopes agree. -/
  env : m.env.AgreeOn N g g' m'.env
  /-- The same was let known. -/
  events : ∃ new, m.events = a ++ new ∧ m'.events = b ++ new

namespace AgreeOn

variable {N : String → Prop} {g g' : Frame} {a b : Array Event} {m m' : Machine}

theorem emit (h : AgreeOn N g g' a b m m') (e : Event) :
    AgreeOn N g g' a b (m.emit e) (m'.emit e) := by
  obtain ⟨new, hm, hm'⟩ := h.events
  refine ⟨h.env, new.push e, ?_, ?_⟩
  · show m.events.push e = _
    rw [hm, Array.append_push]
  · show m'.events.push e = _
    rw [hm', Array.append_push]

/-- A definition of a name in `N`, which is noted with its value. -/
theorem define (h : AgreeOn N g g' a b m m') {name : String} (hn : N name)
    (v : Value) : AgreeOn N g g' a b (m.define name v) (m'.define name v) := by
  have henv : AgreeOn N g g' a b { m with env := m.env.define name v }
      { m' with env := m'.env.define name v } :=
    ⟨h.env.define hn v, h.events⟩
  exact henv.emit _

/-- Expressions that mention only names in `N` have the same value, and assign
alike. -/
theorem eval (h : AgreeOn N g g' a b m m') {e : Expr}
    (he : ∀ name ∈ e.names, N name) :
    Beside (AgreeOn N g g' a b) (m.eval e) (m'.eval e) := by
  have hstep := Env.AgreeOn.alike.beside_eval he h.env
  exact ⟨congrArg (Except.mapError Halt.error) hstep.1, hstep.2, h.events⟩

theorem holds (h : AgreeOn N g g' a b m m') {c : Expr}
    (hc : ∀ name ∈ c.names, N name) :
    Beside (AgreeOn N g g' a b) (m.holds c) (m'.holds c) := by
  rw [holds_eq, holds_eq]
  exact (h.eval hc).andThen fun _ _ _ h => ⟨rfl, h⟩

end AgreeOn

end Machine

/-! ## Runs that agree on names

By induction on the statement, with the set `N` fixed. It contains the names of
the whole statement, so it contains those of each part. -/

namespace Stmt

/-- What holds of all names of some statements holds of those of each. -/
theorem forall_mem_namesAll {N : String → Prop} {ss : List Stmt} :
    (∀ name ∈ namesAll ss, N name) ↔ ∀ s ∈ ss, ∀ name ∈ s.names, N name := by
  induction ss with
  | nil => exact ⟨fun _ => nofun, fun _ => nofun⟩
  | cons s ss ih =>
    rw [namesAll, List.forall_mem_append, List.forall_mem_cons, ih]

variable {N : String → Prop} {g g' : Frame} {a b : Array Event} {rounds : Nat}
  {m m' : Machine}

/-- The statement keeps states in agreement on `N`. -/
def KeepsAgreement (N : String → Prop) (rounds : Nat) (s : Stmt) : Prop :=
  ∀ ⦃g g' : Frame⦄ ⦃a b : Array Event⦄ ⦃m m' : Machine⦄,
    m.AgreeOn N g g' a b m' →
      Beside (Machine.AgreeOn N g g' a b) (exec rounds s m) (exec rounds s m')

/-- Lists of statements stop at the same statement. -/
theorem agreeOn_execAll {body : List Stmt}
    (h : ∀ s ∈ body, s.KeepsAgreement N rounds)
    (hm : m.AgreeOn N g g' a b m') :
    Beside (Machine.AgreeOn N g g' a b) (execAll rounds body m)
      (execAll rounds body m') := by
  induction body generalizing m m' with
  | nil =>
    rw [execAll_nil, execAll_nil]
    exact ⟨rfl, hm⟩
  | cons s ss ih =>
    rw [List.forall_mem_cons] at h
    rw [execAll_cons, execAll_cons]
    exact (h.1 hm).andThen fun _ _ _ hm => ih h.2 hm

theorem keepsAgreement_branch (span : Span) {c : Expr} {t : Stmt}
    {e : Option Stmt} (hc : ∀ name ∈ c.names, N name)
    (ht : t.KeepsAgreement N rounds) (he : ∀ s ∈ e, s.KeepsAgreement N rounds) :
    (branch span c t e).KeepsAgreement N rounds := by
  intro g g' a b m m' hm
  rw [exec_branch, exec_branch]
  refine (hm.holds hc).andThen fun holds m m' hm => ?_
  cases holds with
  | true => exact ht hm
  | false =>
    cases e with
    | none => exact ⟨rfl, hm⟩
    | some s => exact he s rfl hm

/-- The name that is defined is one that the statement mentions. -/
theorem keepsAgreement_define (span : Span) {name : Token} {initial : Option Expr}
    (hn : N name.lexeme) (hi : ∀ e ∈ initial, ∀ name ∈ e.names, N name) :
    (define span name initial).KeepsAgreement N rounds := by
  intro g g' a b m m' hm
  rw [exec_define, exec_define]
  refine Beside.andThen ?_ fun v m m' hm => ⟨rfl, hm.define hn v⟩
  cases initial with
  | none => exact ⟨rfl, hm⟩
  | some e => exact hm.eval (hi e rfl)

/-- **A statement keeps states in agreement on the names it mentions**, whatever
its form and however it ends. The names of a part are among those of the whole,
so `N` need not change along the induction. -/
theorem keepsAgreement {s : Stmt} (hs : ∀ name ∈ s.names, N name) :
    s.KeepsAgreement N rounds := by
  induction s with
  | block span body ih =>
    rw [names, forall_mem_namesAll] at hs
    intro g g' a b m m' hm
    have hinner : m.enter.AgreeOn N g g' a b m'.enter :=
      ⟨hm.env.enter, hm.events⟩
    have hbody :=
      agreeOn_execAll (fun s hmem => ih s hmem (hs s hmem)) hinner
    rw [exec_block, exec_block]
    exact ⟨hbody.1, hbody.2.env.leave, hbody.2.events⟩
  | expression span e =>
    intro g g' a b m m' hm
    rw [exec_expression, exec_expression]
    exact (hm.eval hs).andThen fun _ _ _ hm => ⟨rfl, hm⟩
  | branch span c t e iht ihe =>
    cases e with
    | none =>
      rw [names, List.forall_mem_append] at hs
      exact keepsAgreement_branch span hs.1 (iht hs.2) nofun
    | some e =>
      rw [names, List.forall_mem_append, List.forall_mem_append] at hs
      refine keepsAgreement_branch span hs.1 (iht hs.2.1) fun s he => ?_
      exact Option.some.inj he ▸ ihe e rfl hs.2.2
  | print span e =>
    intro g g' a b m m' hm
    rw [exec_print, exec_print]
    exact (hm.eval hs).andThen fun v _ _ hm => ⟨rfl, hm.emit _⟩
  | define span name initial =>
    cases initial with
    | none =>
      exact keepsAgreement_define span (hs _ (List.mem_singleton_self _)) nofun
    | some e =>
      rw [names, List.forall_mem_cons] at hs
      refine keepsAgreement_define span hs.1 fun e' he => ?_
      exact Option.some.inj he ▸ hs.2
  | loop span c body ih =>
    rw [names, List.forall_mem_append] at hs
    intro g g' a b m m' hm
    rw [exec_loop, exec_loop]
    exact beside_whileLoop (fun _ _ hm => hm.holds hs.1)
      (fun _ _ hm => ih hs.2 hm) rounds hm

end Stmt

/-! ## Programs

Under every bound the runs go side by side; that they end together is then a
matter of bounds alone. -/

/-- Runs with the same result under every bound go on forever together, or settle
together. -/
theorem diverge_or_settle_together
    {f f' : Nat → Except Halt Unit × Machine} {R : Machine → Machine → Prop}
    (h : ∀ rounds, Beside R (f rounds) (f' rounds))
    (hf : Diverges f ∨ ∃ r m, Settles f r m)
    (hf' : Diverges f' ∨ ∃ r m, Settles f' r m) :
    (Diverges f ∧ Diverges f')
      ∨ ∃ r m m', Settles f r m ∧ Settles f' r m' ∧ R m m' := by
  -- If one goes on forever, every bound cuts it off, and with it the other.
  by_cases hd : Diverges f
  · exact .inl ⟨hd, fun rounds => (h rounds).1.trans (hd rounds)⟩
  have hd' : ¬ Diverges f' := fun hd' =>
    hd fun rounds => (h rounds).1.symm.trans (hd' rounds)
  obtain ⟨r, m, n, hn⟩ := hf.resolve_left hd
  obtain ⟨r', m', n', hn'⟩ := hf'.resolve_left hd'
  -- Under a bound that is enough for both, the two results are the same.
  have hboth := h (max n n')
  rw [hn _ (Nat.le_max_left ..), hn' _ (Nat.le_max_right ..)] at hboth
  have hr : r' = r := by
    match r, r', hboth.1 with
    | .ok (), .ok (), _ => rfl
    | .error e, .error e', heq => rw [Halt.error.inj (Except.error.inj heq)]
  exact .inr ⟨r, m, m', ⟨n, hn⟩, ⟨n', hr ▸ hn'⟩, hboth.2⟩

/-- **A program depends on and affects only the variables it mentions.** Let `N`
hold of all names that some statements mention, and let two global scopes agree
on `N`: under each name in `N` they have the same value, or neither has one. Then
the statements go on forever from both, or they end in both with the same result,
having printed the same lines. The global scopes that they leave agree on `N`, and
outside `N` every name is in each what it was. -/
theorem execAll_depends_on_names {statements : List Stmt} {N : String → Prop}
    (hN : ∀ s ∈ statements, ∀ name ∈ s.names, N name) {g g' : Frame}
    (hg : ∀ name, N name → g'.find? name = g.find? name) (a b : Array Event) :
    let f rounds := Stmt.execAll rounds statements ⟨⟨[], g⟩, a⟩
    let f' rounds := Stmt.execAll rounds statements ⟨⟨[], g'⟩, b⟩
    (Diverges f ∧ Diverges f')
    ∨ ∃ r m m', Settles f r m ∧ Settles f' r m'
      ∧ (∃ new, m.lines = a.toList.filterMap Event.line? ++ new
        ∧ m'.lines = b.toList.filterMap Event.line? ++ new)
      ∧ (∀ name, N name → m'.env.global? name = m.env.global? name)
      ∧ ∀ name, ¬ N name → m.env.global? name = g.find? name
        ∧ m'.env.global? name = g'.find? name := by
  intro f f'
  have hstart : (Machine.mk ⟨[], g⟩ a).AgreeOn N g g' a b ⟨⟨[], g'⟩, b⟩ :=
    ⟨.of_globals hg, #[], by simp, by simp⟩
  have hbeside (rounds : Nat) :
      Beside (Machine.AgreeOn N g g' a b) (f rounds) (f' rounds) :=
    Stmt.agreeOn_execAll (fun s hs => Stmt.keepsAgreement (hN s hs)) hstart
  refine (diverge_or_settle_together hbeside
    (Stmt.diverges_or_settles_all _ _) (Stmt.diverges_or_settles_all _ _)).imp_right ?_
  rintro ⟨r, m, m', hm, hm', hagree⟩
  obtain ⟨new, hnew, hnew'⟩ := hagree.events
  refine ⟨r, m, m', hm, hm', ⟨new.toList.filterMap Event.line?, ?_, ?_⟩,
    hagree.env.inside, fun name hn => ?_⟩
  · rw [Machine.lines, hnew, Array.toList_append, List.filterMap_append]
  · rw [Machine.lines, hnew', Array.toList_append, List.filterMap_append]
  · exact ⟨hagree.env.outside name hn, hagree.env.outside' name hn⟩

/-- The statements of `while (x) { let y = x; x = nil; }`. -/
def drainLoop : List Stmt :=
  let x : Token := ⟨.identifier, "x", .unknown⟩
  let y : Token := ⟨.identifier, "y", .unknown⟩
  let nothing : Expr := .literal ⟨.keyword .nilKw, "nil", .unknown⟩
  [.loop .unknown (.reference x) (.block .unknown
    [.define .unknown y (some (.reference x)),
      .expression .unknown (.assign x nothing)])]

/-- A global scope with a variable that the loop does not mention. -/
def crowdedGlobals : Frame := ⟨[("x", .boolean true), ("z", .text "kept")]⟩

/-- A global scope without that variable. -/
def sparseGlobals : Frame := ⟨[("x", .boolean true)]⟩

/-- The loop ends in the same way from both scopes, and leaves the variable that it
does not mention alone. -/
theorem drainLoop_depends_on_names :
    let N (name : String) : Prop := name = "x" ∨ name = "y"
    let f rounds := Stmt.execAll rounds drainLoop ⟨⟨[], crowdedGlobals⟩, #[]⟩
    let f' rounds := Stmt.execAll rounds drainLoop ⟨⟨[], sparseGlobals⟩, #[]⟩
    (∀ s ∈ drainLoop, ∀ name ∈ s.names, N name)
    ∧ (∀ name, N name → sparseGlobals.find? name = crowdedGlobals.find? name)
    ∧ ∃ r m m', Settles f r m ∧ Settles f' r m'
      ∧ m'.env.global? "x" = m.env.global? "x"
      ∧ m.env.global? "z" = some (.text "kept")
      ∧ m'.env.global? "z" = none := by
  intro N f f'
  have hnames : ∀ s ∈ drainLoop, ∀ name ∈ s.names, N name := by
    simp [drainLoop, Stmt.names, Stmt.namesAll, Expr.names, N]
  have hglobals : ∀ name, N name →
      sparseGlobals.find? name = crowdedGlobals.find? name := by
    rintro name (rfl | rfl) <;> rfl
  refine ⟨hnames, hglobals, ?_⟩
  rcases execAll_depends_on_names hnames hglobals #[] #[] with
    ⟨hdiverges, -⟩ | ⟨r, m, m', hm, hm', -, hinside, houtside⟩
  · -- Two rounds are enough: the second finds the condition false.
    have hends : (f 2).1 = .ok () := rfl
    cases hends.symm.trans (hdiverges 2)
  · obtain ⟨hz, hz'⟩ := houtside "z" (by decide)
    exact ⟨r, m, m', hm, hm', hinside "x" (.inl rfl), hz, hz'⟩

end TreeScript
