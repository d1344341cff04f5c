import Mathlib
import TreeScript.Proofs.Scoping.Resolution
import TreeScript.Token.Scan

/-!
# Programs run by addresses

A name can be found without a search, if it is known how many frames lie between
a node and the definition it means. `Stmt.execAt` runs a statement in this way: it
is told the frame number of every node, reads and assigns in that frame alone, and
never looks into another one. Where it is told no number, the name counts as
undefined, even if some frame has it.

For a program that was read, the numbers can be taken from the text
(`Occurrence.depth?`). Run with them, it does what it does when every name is
searched for (`execAllAt_parse`): the same result, the same events and the same
frames. This is lexical scoping as a statement about whole runs. What it means for
a single node is said by `Lookup.Accesses`: a reference has the value that its name
has in the frame of that number, and an assignment changes that frame and no
other.

Both sides are needed. A search that ends in the right frame says nothing about a
run that does something else with what it finds, and a run that agrees with one by
addresses does not say which nodes it has reached.

The run by addresses is written out in full and not derived from the other one,
so that there is no search hidden in it. The comparison needs no more than what
is known of the frames in front of each step (`Env.Matches`), and goes by the
cases of execution.
-/

namespace TreeScript

/-! ## Frames by number

An environment keeps its globals apart from the frames of its blocks. Seen as
one list of frames it has the same information, so that a change in one frame of
the list determines the environment. -/

namespace Env

/-- The value of a name in the frame of a number. -/
def valueAt? (env : Env) (d : Nat) (name : String) : Option Value :=
  env.frames[d]?.bind (·.find? name)

/-- Changes the frame of a number. The global frame comes behind those of the
blocks. -/
def modifyFrame (env : Env) (d : Nat) (f : Frame → Frame) : Env where
  blocks := env.blocks.modify d f
  globals := if d = env.blocks.length then f env.globals else env.globals

/-- A frame of the blocks is changed among them, and the global frame as the last
of all. -/
theorem frames_modifyFrame (env : Env) (d : Nat) (f : Frame → Frame) :
    (env.modifyFrame d f).frames = env.frames.modify d f := by
  unfold modifyFrame frames
  refine List.ext_getElem? fun i => ?_
  rw [List.getElem?_modify]
  rcases Nat.lt_trichotomy i env.blocks.length with hi | hi | hi
  · rw [List.getElem?_append_left (by simpa using hi),
      List.getElem?_append_left hi, List.getElem?_modify]
  · subst hi
    rw [List.getElem?_append_right (by simp), List.getElem?_append_right (Nat.le_refl _)]
    by_cases hd : d = env.blocks.length <;> simp [hd]
  · rw [List.getElem?_eq_none (by simpa using Nat.succ_le_of_lt hi),
      List.getElem?_eq_none (by simpa using Nat.succ_le_of_lt hi)]
    rfl

/-- An environment is known by its frames: the last one is the global one. -/
theorem eq_of_frames_eq {env env' : Env} (h : env.frames = env'.frames) :
    env = env' := by
  obtain ⟨hb, hg⟩ := List.append_inj' h rfl
  cases env
  cases env'
  simp_all

/-- **An assignment that ends at a frame** changes it, and there is nothing else
it can have done. A walk says what becomes of the frames, and an environment is
known by its frames. -/
theorem Resolves.overwrite?_eq {env : Env} {name : String} {d : Option Nat}
    (h : env.Resolves name d) (v : Value) :
    env.overwrite? name v
      = d.map fun i => env.modifyFrame i (·.define name v) := by
  have ha := h.assigns v
  cases d with
  | none => simpa using ha
  | some i =>
    obtain ⟨env', ho, hf⟩ := Option.map_eq_some_iff.1 ha
    rw [ho, Option.map_some]
    exact congrArg some (eq_of_frames_eq (hf.trans (frames_modifyFrame ..).symm))

end Env

/-! ## Running by addresses

The place of a node enters as a function that is shifted by one turn at each
step down the tree. -/

/-- **Evaluates an expression by addresses**: `depthAt` says for the place of
each node in which frame its name is. No other frame is read or assigned to. An
assignment gives its value to the frame of its own node, once the right side was
evaluated. -/
def Expr.evalAt : Expr → (Place → Option Nat) → Env →
    Except RuntimeError Value × Env
  | literal t, _, env => (literalValue t, env)
  | reference name, depthAt, env =>
    match (depthAt []).bind (env.valueAt? · name.lexeme) with
    | some v => (.ok v, env)
    | none => (.error (undefinedVariable name), env)
  | grouping inner, depthAt, env =>
    inner.evalAt (fun p => depthAt (.value :: p)) env
  | assign name value, depthAt, env =>
    match value.evalAt (fun p => depthAt (.value :: p)) env with
    | (.error e, env) => (.error e, env)
    | (.ok v, env) =>
      match depthAt [] with
      | some d => (.ok v, env.modifyFrame d (·.define name.lexeme v))
      | none => (.error (undefinedVariable name), env)
  | unary op operand, depthAt, env =>
    match operand.evalAt (fun p => depthAt (.value :: p)) env with
    | (.error e, env) => (.error e, env)
    | (.ok v, env) => (UnaryOp.apply op v, env)
  | binary op lhs rhs, depthAt, env =>
    match lhs.evalAt (fun p => depthAt (.lhs :: p)) env with
    | (.error e, env) => (.error e, env)
    | (.ok x, env) =>
      match rhs.evalAt (fun p => depthAt (.rhs :: p)) env with
      | (.error e, env) => (.error e, env)
      | (.ok y, env) => (BinaryOp.apply op x y, env)

namespace Machine

/-- Evaluates an expression by addresses. -/
def evalAt (m : Machine) (e : Expr) (depthAt : Place → Option Nat) :
    Except Halt Value × Machine :=
  ((e.evalAt depthAt m.env).1.mapError .error,
    { m with env := (e.evalAt depthAt m.env).2 })

/-- Whether a condition holds, by addresses. -/
def holdsAt (m : Machine) (condition : Expr) (depthAt : Place → Option Nat) :
    Except Halt Bool × Machine :=
  ((m.evalAt condition depthAt).1.map Value.isTruthy,
    (m.evalAt condition depthAt).2)

end Machine

namespace Stmt

mutual

/-- **Executes a statement by addresses.** It does what `Stmt.exec` does, but for
the expressions in it, which are evaluated by addresses. -/
def execAt (rounds : Nat) : Stmt → (Place → Option Nat) → Machine →
    Except Halt Unit × Machine
  | block _ body, depthAt, m =>
    ((execAllAt rounds body 0 depthAt m.enter).1,
      (execAllAt rounds body 0 depthAt m.enter).2.leave)
  | expression _ e, depthAt, m =>
    ((m.evalAt e fun p => depthAt (.value :: p)).1.map fun _ => (),
      (m.evalAt e fun p => depthAt (.value :: p)).2)
  | branch _ condition thenStmt elseStmt, depthAt, m =>
    match m.holdsAt condition fun p => depthAt (.condition :: p) with
    | (.error h, m) => (.error h, m)
    | (.ok true, m) =>
      execAt rounds thenStmt (fun p => depthAt (.thenStmt :: p)) m
    | (.ok false, m) =>
      match elseStmt with
      | some s => execAt rounds s (fun p => depthAt (.elseStmt :: p)) m
      | none => (.ok (), m)
  | print _ e, depthAt, m =>
    match m.evalAt e fun p => depthAt (.value :: p) with
    | (.error h, m) => (.error h, m)
    | (.ok v, m) => (.ok (), m.emit (.printed v.display))
  | define _ name none, _, m => (.ok (), m.define name.lexeme .nil)
  | define _ name (some e), depthAt, m =>
    match m.evalAt e fun p => depthAt (.value :: p) with
    | (.error h, m) => (.error h, m)
    | (.ok v, m) => (.ok (), m.define name.lexeme v)
  | loop _ condition body, depthAt, m =>
    whileLoop (·.holdsAt condition fun p => depthAt (.condition :: p))
      (execAt rounds body fun p => depthAt (.body :: p)) rounds m

/-- **Executes statements of a list by addresses**, the first of which has number
`i`. -/
def execAllAt (rounds : Nat) : List Stmt → Nat → (Place → Option Nat) →
    Machine → Except Halt Unit × Machine
  | [], _, _, m => (.ok (), m)
  | s :: ss, i, depthAt, m =>
    match execAt rounds s (fun p => depthAt (.item i :: p)) m with
    | (.error h, m) => (.error h, m)
    | (.ok (), m) => execAllAt rounds ss (i + 1) depthAt m

end

end Stmt

/-! ## Addresses from the text

Where the frames match the scopes, the number from the text is the number of the
frame at which a search would end. -/

/-- The frame number that the text gives to the occurrence at a place. -/
abbrev addressOf (o? : Option Occurrence) : Option Nat := o?.bind Occurrence.depth?

/-- A name that occurs in scopes which the frames match is found at the depth of
its occurrence. -/
theorem Env.Matches.resolves {env : Env} {o : Occurrence}
    (h : env.Matches o.scopes) : env.Resolves o.name.lexeme o.depth? := by
  have hd := h.depth? o.name.lexeme
  have hr := env.resolves_depth? o.name.lexeme
  rwa [hd] at hr

/-- **An expression evaluates by the addresses of the text** as it does by
search, wherever the frames match the scopes. Evaluating one operand defines no
name, so that they still match where the next one is reached. -/
theorem Expr.evalAt_eq {e : Expr} {depthAt : Place → Option Nat} {env : Env}
    {scopes : List (List String)} (h : env.Matches scopes)
    (hd : ∀ p, depthAt p = addressOf (e.occurrenceAt? scopes p)) :
    e.evalAt depthAt env = e.eval env := by
  induction e generalizing env depthAt with
  | literal t => rfl
  | reference name =>
    have hr := Env.Matches.resolves (o := ⟨name, scopes⟩) h
    rw [evalAt, eval, hd, hr.reads]
    rfl
  | grouping e ih => exact ih h fun p => hd (.value :: p)
  | assign name e ih =>
    have he := h.eval e
    rw [evalAt, eval, ih h fun p => hd (.value :: p), hd]
    rcases hv : e.eval env with ⟨_ | v, env'⟩
    · rfl
    · rw [hv] at he
      have hr := Env.Matches.resolves (o := ⟨name, scopes⟩) he
      have haddress : addressOf ((assign name e).occurrenceAt? scopes [])
          = Occurrence.depth? ⟨name, scopes⟩ := rfl
      dsimp only
      rw [hr.overwrite?_eq v, haddress]
      -- Both sides look only at the number: they change this frame, or fail
      -- without one.
      cases Occurrence.depth? ⟨name, scopes⟩ <;> rfl
  | unary op e ih =>
    rewrite [evalAt, eval, ih h fun p => hd (.value :: p)]
    rfl
  | binary op l r ihl ihr =>
    have hl := h.eval l
    rw [evalAt, eval, ihl h fun p => hd (.lhs :: p)]
    rcases hx : l.eval env with ⟨_ | x, env'⟩
    · rfl
    · rw [hx] at hl
      have hr := ihr hl fun p => hd (.rhs :: p)
      dsimp only at hr ⊢
      rewrite [hr]
      rfl

namespace Machine

variable {m : Machine} {scopes : List (List String)} {e : Expr}
  {depthAt : Place → Option Nat}

theorem evalAt_eq (h : m.env.Matches scopes)
    (hd : ∀ p, depthAt p = addressOf (e.occurrenceAt? scopes p)) :
    m.evalAt e depthAt = m.eval e := by
  unfold evalAt eval
  rw [Expr.evalAt_eq h hd]

theorem holdsAt_eq (h : m.env.Matches scopes)
    (hd : ∀ p, depthAt p = addressOf (e.occurrenceAt? scopes p)) :
    m.holdsAt e depthAt = m.holds e := by
  unfold holdsAt holds
  rw [evalAt_eq h hd]

end Machine

/-- **Two loops that agree on every state a round can start in** do the same:
the states are those of an invariant that the rounds keep. They need not agree
on other states, such as those in which the frames do not match the scopes. -/
theorem whileLoop_congr {test test' : Machine → Except Halt Bool × Machine}
    {body body' : Machine → Except Halt Unit × Machine} {I : Machine → Prop}
    (htest : ∀ m, I m → I (test m).2)
    (hbody : ∀ m m', I m → body m = (.ok (), m') → I m')
    (ht : ∀ m, I m → test' m = test m) (hb : ∀ m, I m → body' m = body m)
    (n : Nat) {m : Machine} (hm : I m) :
    whileLoop test' body' n m = whileLoop test body n m := by
  induction n generalizing m with
  | zero => rfl
  | succ n ih =>
    have hm₁ := htest m hm
    unfold whileLoop
    rw [ht m hm]
    rcases hr : test m with ⟨_ | goesOn, m₁⟩
    · rfl
    · rw [hr] at hm₁
      cases goesOn with
      | false => rfl
      | true =>
        dsimp only
        rw [hb m₁ hm₁]
        rcases hr : body m₁ with ⟨_ | _, m₂⟩
        · rfl
        · exact ih (hbody m₁ m₂ hm₁ hr)

namespace Stmt

variable {rounds : Nat} {s : Stmt} {body : List Stmt}
  {outer : List (List String)} {m : Machine} {depthAt : Place → Option Nat}

/-- **A statement runs by the addresses of the text** as it does by search,
wherever the frames match the scopes it stands in. As long as the addresses are
those of the text at this statement, it does not matter how it was reached. -/
def Addressed (rounds : Nat) (s : Stmt) : Prop :=
  ∀ ⦃scopes m depthAt⦄, m.env.Matches scopes →
    (∀ p, depthAt p = addressOf (s.occurrenceAt? scopes p)) →
    execAt rounds s depthAt m = exec rounds s m

/-- The statements of a list run in the scope of those in front of them, as
`front` is here. -/
theorem execAllAt_eq (hadds : ∀ s ∈ body, s.Adds rounds)
    (h : ∀ s ∈ body, s.Addressed rounds) (front : List Stmt)
    (hm : m.env.Matches (definedNames front :: outer))
    (hd : ∀ p, depthAt p = addressOf (occurrenceIn? (front ++ body) outer p)) :
    execAllAt rounds body front.length depthAt m = execAll rounds body m := by
  induction body generalizing front m with
  | nil => rw [execAllAt, execAll]
  | cons s ss ih =>
    obtain ⟨hs, hss⟩ := List.forall_mem_cons.1 h
    obtain ⟨has, hass⟩ := List.forall_mem_cons.1 hadds
    have hds (p : Place) : depthAt (.item front.length :: p)
        = addressOf (s.occurrenceAt? (definedNames front :: outer) p) := by
      rw [hd, occurrenceIn?_append]
    rw [execAllAt, execAll, hs hm hds]
    rcases hr : exec rounds s m with ⟨_ | _, m'⟩
    · rfl
    · -- The statement ran through, so its name is in front of the next one.
      have hm' := has hm hr
      rw [← definedNames_snoc] at hm'
      have hnext := ih hass hss (front ++ [s]) hm'
      rw [List.length_append, List.append_assoc] at hnext
      exact hnext hd

/-- The side that is taken runs in the scopes of the branch. -/
theorem addressed_branch {t : Stmt} {e : Option Stmt} (span : Span) (c : Expr)
    (ht : t.Addressed rounds) (he : ∀ s ∈ e, s.Addressed rounds) :
    (branch span c t e).Addressed rounds := by
  intro scopes m depthAt hm hd
  have hc := hm.holds c
  rw [execAt, exec, m.holdsAt_eq hm fun p => hd (.condition :: p)]
  rcases hr : m.holds c with ⟨_ | holds, m'⟩
  · rfl
  · rw [hr] at hc
    cases holds with
    | true => exact ht hc fun p => hd (.thenStmt :: p)
    | false =>
      cases e with
      | none => rfl
      | some s => exact he s rfl hc fun p => hd (.elseStmt :: p)

/-- Every round starts in the scopes of the loop, and ends in them if it runs
through. -/
theorem addressed_loop (span : Span) (c : Expr) (hkeeps : s.Keeps rounds)
    (h : s.Addressed rounds) : (loop span c s).Addressed rounds := by
  intro scopes m depthAt hm hd
  rw [execAt, exec]
  -- The frames match the scopes of the loop in front of each of its rounds.
  exact whileLoop_congr (I := (·.env.Matches scopes)) (fun m hm => hm.holds c)
    (fun m m' hm he => hkeeps hm he)
    (fun m hm => m.holdsAt_eq hm fun p => hd (.condition :: p))
    (fun m hm => h hm fun p => hd (.body :: p)) rounds hm

/-- **Statements whose definitions stand in lists run by addresses.** The cases
are those of `WellPlaced.faithful`, with what is done in place of what is looked
up. -/
theorem WellPlaced.addressed (h : s.WellPlaced) : s.Addressed rounds := by
  induction h with
  | block hb ih =>
    intro scopes m depthAt hm hd
    simp only [occurrenceAt?_block] at hd
    have hbody := execAllAt_eq (m := m.enter)
      (fun s hs => (hb s hs).adds) ih [] hm.enter hd
    rw [execAt, exec, ← hbody]
    rfl
  | expression =>
    intro scopes m depthAt hm hd
    rw [execAt, exec, m.evalAt_eq hm fun p => hd (.value :: p)]
  | print =>
    intro scopes m depthAt hm hd
    rewrite [execAt, exec, m.evalAt_eq hm fun p => hd (.value :: p)]
    rfl
  | branch _ _ _ _ iht ihe => exact addressed_branch _ _ iht ihe
  | @define span name initial =>
    intro scopes m depthAt hm hd
    cases initial with
    | none => rw [execAt, exec]
    | some e =>
      rewrite [execAt, exec, m.evalAt_eq hm fun p => hd (.value :: p)]
      rfl
  | loop hb hn ih => exact addressed_loop _ _ (hb.adds.keeps hn) ih

end Stmt

/-! ## What a lookup does

This is the same for one node, said in terms of what evaluation gives there. -/

/-- **A lookup goes to frame number `d`**, and what its node does depends on this
frame alone. The node is a reference or an assignment; the value that an
assignment has to give comes from its right side, which leaves the environment of
the lookup behind. -/
structure Lookup.Accesses (k : Lookup) (d : Option Nat) : Prop where
  /-- A walk for the name ends at this frame. -/
  resolves : k.env.Resolves k.name.lexeme d
  /-- A reference has the value of its name in this frame, and changes nothing. -/
  reads : ∀ i, d = some i → ∃ v, k.env.valueAt? i k.name.lexeme = some v
    ∧ (Expr.reference k.name).eval k.env = (.ok v, k.env)
  /-- An assignment gives its name a new value in this frame, and changes nothing
  else. -/
  writes : ∀ i, d = some i → ∀ (e : Expr) (env : Env) (v : Value),
    e.eval env = (.ok v, k.env) →
    (Expr.assign k.name e).eval env
      = (.ok v, k.env.modifyFrame i (·.define k.name.lexeme v))
  /-- Without such a frame both fail, and change nothing. -/
  fails : d = none →
    (Expr.reference k.name).eval k.env
        = (.error (undefinedVariable k.name), k.env)
      ∧ ∀ (e : Expr) (env : Env) (v : Value), e.eval env = (.ok v, k.env) →
        (Expr.assign k.name e).eval env
          = (.error (undefinedVariable k.name), k.env)

/-- What a walk finds decides what the node does. -/
theorem Env.Resolves.accesses {k : Lookup} {d : Option Nat}
    (h : k.env.Resolves k.name.lexeme d) : k.Accesses d where
  resolves := h
  reads := by
    rintro i rfl
    -- A name that can be assigned to has a value.
    have hs := k.env.isSome_overwrite? k.name.lexeme .nil
    rw [h.overwrite?_eq] at hs
    obtain ⟨v, hv⟩ := Option.isSome_iff_exists.1 hs.symm
    refine ⟨v, h.reads.symm.trans hv, ?_⟩
    rw [Expr.eval, hv]
  writes := by
    rintro i rfl e env v he
    rw [Expr.eval, he]
    dsimp only
    rw [h.overwrite?_eq]
    rfl
  fails := by
    rintro rfl
    refine ⟨?_, fun e env v he => ?_⟩
    · rw [Expr.eval, h.reads]
      rfl
    · rw [Expr.eval, he]
      dsimp only
      rw [h.overwrite?_eq]
      rfl

/-! ## Programs

For a program that was read, from the start, all assumptions hold. -/

/-- A lookup is at fault if no frame defines its name. -/
theorem mem_faults {ks : List Lookup} {e : RuntimeError} :
    e ∈ faults ks
      ↔ ∃ k ∈ ks, k.env.depth? k.name.lexeme = none
          ∧ undefinedVariable k.name = e := by
  unfold faults
  rw [List.mem_filterMap]
  refine exists_congr fun k => and_congr_right fun _ => ?_
  rw [← Env.find?_eq_none_iff, Lookup.fault?]
  cases k.env.find? k.name.lexeme <;> simp

/-- The only error of this kind is that of the run. -/
theorem mem_unbound {r : Except Halt Unit} {span : Span} {name : String} :
    ⟨span, .undefinedVariable name⟩ ∈ unbound r
      ↔ r = .error (.error ⟨span, .undefinedVariable name⟩) := by
  constructor
  · intro h
    unfold unbound at h
    split at h
    · unfold Halt.unbound at h
      split at h
      · rw [List.mem_singleton.1 h]
      · cases h
    · cases h
  · rintro rfl
    exact List.mem_singleton.2 rfl

section Programs

variable (tokens : List Token) (rounds : Nat) (events : Array Event)

/-- Every lookup that a program makes from the start is the one that its text has
at the place. -/
theorem lookups_parse_at :
    ∀ k ∈ Stmt.lookupsAll rounds (parse tokens).statements 0 ⟨{}, events⟩,
      k.At (Stmt.occurrenceIn? (parse tokens).statements [] k.place) :=
  Stmt.lookupsAll_at (fun s hs => (wellPlaced_parse tokens s hs).adds)
    (fun s hs => (wellPlaced_parse tokens s hs).faithful) [] Env.matches_empty

/-- **A program runs by the addresses of its text** as it does by search. The
frames match at the start, where there is only the global one and no name is
defined, and each statement is placed as addresses require. -/
theorem execAllAt_parse :
    Stmt.execAllAt rounds (parse tokens).statements 0
        (fun p => addressOf (Stmt.occurrenceIn? (parse tokens).statements [] p))
        ⟨{}, events⟩
      = Stmt.execAll rounds (parse tokens).statements ⟨{}, events⟩ :=
  Stmt.execAllAt_eq (fun s hs => (wellPlaced_parse tokens s hs).adds)
    (fun s hs => (wellPlaced_parse tokens s hs).addressed) [] Env.matches_empty
    fun _ => rfl

/-- **Lexical scoping.** When a program that was read runs from the start, every
lookup it makes goes where the text says: to the frame whose number is the depth
of the occurrence at its place, or nowhere if that occurrence is unbound. The node
that makes the lookup reads or assigns to its name in this frame, so the whole run
is the one that takes all frame numbers from the text and searches for nothing.
And the run ends with an undefined variable exactly if it reaches an occurrence
that is unbound in the text. -/
theorem lookups_parse_resolve :
    let program := (parse tokens).statements
    let start : Machine := ⟨{}, events⟩
    let lookups := Stmt.lookupsAll rounds program 0 start
    (∀ k ∈ lookups, ∃ o, Stmt.occurrenceIn? program [] k.place = some o
      ∧ o.name = k.name ∧ k.Accesses o.depth?)
    ∧ Stmt.execAll rounds program start
        = Stmt.execAllAt rounds program 0
            (fun p => addressOf (Stmt.occurrenceIn? program [] p)) start
    ∧ ∀ span name,
      (Stmt.execAll rounds program start).1
          = .error (.error ⟨span, .undefinedVariable name⟩)
        ↔ ∃ k ∈ lookups, ∃ o,
            Stmt.occurrenceIn? program [] k.place = some o ∧ o.depth? = none
              ∧ undefinedVariable k.name = ⟨span, .undefinedVariable name⟩ := by
  intro program start lookups
  have hresolves : ∀ k ∈ lookups, ∃ o,
      Stmt.occurrenceIn? program [] k.place = some o ∧ o.name = k.name
        ∧ k.env.Resolves k.name.lexeme o.depth? := by
    intro k hk
    obtain ⟨o, ho, hn, hmatches⟩ := lookups_parse_at tokens rounds events k hk
    exact ⟨o, ho, hn, hn ▸ hmatches.resolves⟩
  refine ⟨fun k hk => ?_, (execAllAt_parse tokens rounds events).symm,
    fun span name => ?_⟩
  · obtain ⟨o, ho, hn, hr⟩ := hresolves k hk
    exact ⟨o, ho, hn, hr.accesses⟩
  · rw [← mem_unbound, ← Stmt.faults_lookupsAll rounds program 0, mem_faults]
    refine exists_congr fun k => and_congr_right fun hk => ?_
    obtain ⟨o, ho, -, hr⟩ := hresolves k hk
    rw [hr.depth, ho]
    simp

end Programs

/-- A script with a block that first reads the name around it, and then hides it
with a definition of its own. -/
def lateHiding : SourceText :=
  ⟨"s", "let a = \"x\"; \x7b print a; let a = \"y\"; a = \"z\"; \x7d print a;"⟩

/-- An occurrence of the name in this script. -/
def hiddenName (column : Nat) : Token := ⟨.identifier, "a", ⟨"s", 1, column⟩⟩

theorem statements_lateHiding : (parse lateHiding.scan.tokens).statements
    = [.define ⟨"s", 1, 1⟩ (hiddenName 5)
          (some (.literal ⟨.string, "x", ⟨"s", 1, 9⟩⟩)),
        .block ⟨"s", 1, 14⟩
          [.print ⟨"s", 1, 16⟩ (.reference (hiddenName 22)),
            .define ⟨"s", 1, 25⟩ (hiddenName 29)
              (some (.literal ⟨.string, "y", ⟨"s", 1, 33⟩⟩)),
            .expression ⟨"s", 1, 38⟩ (.assign (hiddenName 38)
              (.literal ⟨.string, "z", ⟨"s", 1, 42⟩⟩))],
        .print ⟨"s", 1, 49⟩ (.reference (hiddenName 55))] := by
  cbv

/-- The lookups that the script makes, with the frames they are made in. -/
theorem lookups_lateHiding :
    Stmt.lookupsAll 0 (parse lateHiding.scan.tokens).statements 0 {}
      = [⟨[.item 1, .item 0, .value], hiddenName 22,
            ⟨[⟨[]⟩], ⟨[("a", .text "x")]⟩⟩⟩,
          ⟨[.item 1, .item 2, .value], hiddenName 38,
            ⟨[⟨[("a", .text "y")]⟩], ⟨[("a", .text "x")]⟩⟩⟩,
          ⟨[.item 2, .value], hiddenName 55, ⟨[], ⟨[("a", .text "x")]⟩⟩⟩] := by
  rw [statements_lateHiding]
  rfl

/-- The first of these reads the name one frame further out, as its definition in
the block comes too late for it. The assignment stays in the block, so that both
lines are the same. -/
theorem lateHiding_parse_resolve :
    let program := (parse lateHiding.scan.tokens).statements
    let lookups := Stmt.lookupsAll 0 program 0 {}
    let run := Stmt.execAllAt 0 program 0
      (fun p => addressOf (Stmt.occurrenceIn? program [] p)) {}
    (∃ k ∈ lookups, k.place = [.item 1, .item 0, .value] ∧ k.Accesses (some 1))
    ∧ (∃ k ∈ lookups, k.place = [.item 1, .item 2, .value]
      ∧ k.Accesses (some 0))
    ∧ run.2.events.toList.filterMap Event.line? = ["x", "x"] := by
  intro program lookups run
  obtain ⟨haccesses, hrun, -⟩ :=
    lookups_parse_resolve lateHiding.scan.tokens 0 #[]
  have haddress : ∀ k ∈ lookups,
      k.Accesses (addressOf (Stmt.occurrenceIn? program [] k.place)) := by
    intro k hk
    obtain ⟨o, ho, -, haccess⟩ := haccesses k hk
    rwa [ho]
  have hprint :
      addressOf (Stmt.occurrenceIn? program [] [.item 1, .item 0, .value])
        = some 1 := by
    rw [show program = _ from statements_lateHiding]
    decide
  have hassign :
      addressOf (Stmt.occurrenceIn? program [] [.item 1, .item 2, .value])
        = some 0 := by
    rw [show program = _ from statements_lateHiding]
    decide
  rw [show lookups = _ from lookups_lateHiding] at haddress ⊢
  simp only [List.forall_mem_cons, hprint, hassign] at haddress
  refine ⟨⟨_, .head _, rfl, haddress.1⟩, ⟨_, .tail _ (.head _), rfl,
    haddress.2.1⟩, ?_⟩
  show (Stmt.execAllAt 0 program 0 _ _).2.events.toList.filterMap _ = _
  rw [← hrun, statements_lateHiding]
  rfl

end TreeScript
