import TreeScript.Proofs.Scoping.Lookup

/-!
# Lexical scoping

The frames of a running program mirror its text: when execution stands at a
statement, the frames define exactly the names of the scopes that the statement
has in the text (`Env.Matches`). Evaluating an expression keeps this, a
definition adds its name on both sides, and a block adds a frame on entry that
it drops on exit.

From this every lookup of a run is the one that the text has at its place
(`Stmt.WellPlaced.faithful`), in every round of a loop and on every path. What
follows for the values that are read and the errors that are met is said in
`TreeScript.Proofs.Scoping.Addressed`.

The invariant says nothing about values, only about which names each frame
defines. That makes it easy to keep: an assignment changes values, so that only
blocks and definitions need an argument. The one delicate point is where a
definition stands. As the body of a branch it would add its name on some paths
and not on others, and no text could say which; programs that are read have no
such definitions (`Stmt.WellPlaced`).
-/

namespace TreeScript

/-! ## Frames and scopes

The names of the frames, as functions from names to truth values, and what each
act on the environment does to them. -/

theorem Frame.defines_define (f : Frame) (name other : String) (v : Value) :
    (f.define name v).defines other = (other == name || f.defines other) := by
  unfold defines
  rw [find?_define]
  by_cases h : other = name <;> simp [h]

/-- Assigning to a name that is defined defines no name. -/
theorem Frame.defines_define_of_defines {f : Frame} {name : String}
    (h : f.defines name) (v : Value) : (f.define name v).defines = f.defines := by
  funext other
  rw [defines_define]
  by_cases hn : other = name <;> simp [hn, h]

namespace Env

/-- **The names of every frame**, innermost first. -/
def domains (env : Env) : List (String → Bool) := env.frames.map Frame.defines

/-- A block that is entered defines nothing yet. -/
@[simp] theorem domains_enter (env : Env) :
    env.enter.domains = (fun _ => false) :: env.domains :=
  rfl

/-- A definition adds its name to the innermost frame. -/
theorem domains_define (env : Env) (name : String) (v : Value) :
    (env.define name v).domains
      = env.domains.modifyHead fun d other => other == name || d other := by
  have hf (f : Frame) : (f.define name v).defines
      = fun other => other == name || f.defines other :=
    funext fun other => f.defines_define name other v
  unfold domains frames define
  cases env.blocks with
  | nil => simp [hf]
  | cons f fs => simp [hf]

/-- **An assignment defines no name.** It changes the value of a name in the
frame that has it, and a name that no frame has makes it fail. -/
theorem domains_overwrite? {env env' : Env} {name : String} {v : Value}
    (h : env.overwrite? name v = some env') : env'.domains = env.domains := by
  have hf : overwriteFrames name v env.frames = some env'.frames := by
    rw [← frames_overwrite?, h]
    rfl
  unfold domains
  generalize env.frames = fs at hf
  generalize env'.frames = gs at hf
  induction fs generalizing gs with
  | nil => cases hf
  | cons f fs ih =>
    unfold overwriteFrames at hf
    split at hf
    · rename_i hd
      obtain rfl := Option.some.inj hf
      -- The name was defined in this frame already.
      simp [Frame.defines_define_of_defines hd]
    · obtain ⟨hs, hh, rfl⟩ := Option.map_eq_some_iff.1 hf
      simp [ih hs hh]

/-- **The frames define exactly the names of the scopes**, in the same order.
Frames and scopes are listed from the inside, so that the same number names the
same frame and scope. -/
def Matches (env : Env) (scopes : List (List String)) : Prop :=
  env.domains = scopes.map fun names name => names.contains name

/-- At the start there is one scope, without names, on both sides. -/
theorem matches_empty : ({} : Env).Matches [[]] :=
  rfl

theorem Matches.enter {env : Env} {scopes : List (List String)}
    (h : env.Matches scopes) : env.enter.Matches ([] :: scopes) := by
  unfold Matches
  rw [domains_enter, h]
  rfl

/-- The frame of a block can be dropped if there is a frame around it. -/
theorem Matches.leave {env : Env} {names : List String}
    {outer : List (List String)} (h : env.Matches (names :: outer))
    (ho : outer ≠ []) : env.leave.Matches outer := by
  unfold Matches domains frames at h ⊢
  unfold Env.leave
  cases hb : env.blocks with
  | nil =>
    rw [hb] at h
    exact absurd (by simpa using congrArg List.length h) ho
  | cons f fs =>
    rw [hb] at h
    exact (List.cons.inj h).2

/-- A definition is put behind the others of its list. The order does not matter
to a frame. -/
theorem Matches.define {env : Env} {names : List String}
    {outer : List (List String)} (h : env.Matches (names :: outer))
    (name : String) (v : Value) :
    (env.define name v).Matches ((names ++ [name]) :: outer) := by
  unfold Matches
  rw [domains_define, h]
  simp only [List.map_cons, List.modifyHead_cons, List.cons.injEq, and_true]
  funext other
  simp [List.contains_eq_mem, Bool.or_comm, Bool.beq_eq_decide_eq]

/-- There is always the global frame. -/
theorem Matches.ne_nil {env : Env} {scopes : List (List String)}
    (h : env.Matches scopes) : scopes ≠ [] := by
  rintro rfl
  have hl := congrArg List.length h
  simp [domains, frames] at hl

/-- Where the frames match the scopes, a walk through the frames ends where one
through the scopes does. -/
theorem Matches.depth? {env : Env} {scopes : List (List String)}
    (h : env.Matches scopes) (name : String) :
    env.depth? name = scopes.findIdx? (·.contains name) := by
  have hd : env.depth? name = env.domains.findIdx? (· name) := by
    unfold domains
    rw [List.findIdx?_map]
    rfl
  rw [hd, h, List.findIdx?_map]
  rfl

end Env

/-! ## Expressions

Assignments are the only expressions that change the environment, and they
change no names. -/

theorem Expr.domains_store (name : Token) (v : Value) (env : Env) :
    (store name v env).2.domains = env.domains := by
  unfold store
  split
  · rename_i ho
    exact Env.domains_overwrite? ho
  · rfl

/-- **Evaluating defines no name**, whether it succeeds or not. Also what was
assigned before an error defines no name. -/
theorem Expr.domains_eval (e : Expr) (env : Env) :
    (e.eval env).2.domains = env.domains := by
  induction e generalizing env with
  | literal t => rfl
  | reference name =>
    unfold eval
    split <;> rfl
  | grouping e ih => exact ih env
  | assign name e ih =>
    rw [eval_assign]
    exact andThen_keeps (I := (Env.domains · = env.domains)) (ih env)
      fun v env' h => (domains_store name v env').trans h
  | unary op e ih =>
    rw [eval_unary]
    exact andThen_keeps (I := (Env.domains · = env.domains)) (ih env) fun _ _ h => h
  | binary op l r ihl ihr =>
    rw [eval_binary]
    refine andThen_keeps (I := (Env.domains · = env.domains)) (ihl env)
      fun x env' h => ?_
    exact andThen_keeps (I := (Env.domains · = env.domains)) ((ihr env').trans h)
      fun _ _ h => h

theorem Env.Matches.eval {env : Env} {scopes : List (List String)}
    (h : env.Matches scopes) (e : Expr) : (e.eval env).2.Matches scopes :=
  (e.domains_eval env).trans h

/-- **A lookup is the one that the text has at its place**: there is an
occurrence of its name, and the frames match its scopes. The place is not part
of this: it is where the occurrence was taken from. -/
def Lookup.At (k : Lookup) (o? : Option Occurrence) : Prop :=
  ∃ o, o? = some o ∧ o.name = k.name ∧ k.env.Matches o.scopes

/-- A place inside a part is looked up in the part. -/
@[simp] theorem Lookup.at_within {t : Turn} {k : Lookup}
    {o? : Option Occurrence} : (k.within t).At o? ↔ k.At o? :=
  .rfl

/-- Every lookup of an expression is the one that the text has at its place. -/
theorem Expr.lookups_at {e : Expr} {env : Env} {scopes : List (List String)}
    (h : env.Matches scopes) :
    ∀ k ∈ e.lookups env, k.At (e.occurrenceAt? scopes k.place) := by
  induction e generalizing env with
  | literal t => exact nofun
  | reference name =>
    intro k hk
    obtain rfl := List.mem_singleton.1 hk
    exact ⟨_, rfl, rfl, h⟩
  | grouping e ih =>
    intro k hk
    obtain ⟨j, hj, rfl⟩ := List.mem_map.1 hk
    exact ih h j hj
  | assign name e ih =>
    intro k hk
    rcases List.mem_append.1 hk with hk | hk
    · obtain ⟨j, hj, rfl⟩ := List.mem_map.1 hk
      exact ih h j hj
    · obtain ⟨v, env', he, hk⟩ := Lookup.mem_behind hk
      obtain rfl := List.mem_singleton.1 hk
      have h' := h.eval e
      rw [he] at h'
      exact ⟨_, rfl, rfl, h'⟩
  | unary op e ih =>
    intro k hk
    obtain ⟨j, hj, rfl⟩ := List.mem_map.1 hk
    exact ih h j hj
  | binary op l r ihl ihr =>
    intro k hk
    rcases List.mem_append.1 hk with hk | hk
    · obtain ⟨j, hj, rfl⟩ := List.mem_map.1 hk
      exact ihl h j hj
    · obtain ⟨v, env', he, hk⟩ := Lookup.mem_behind hk
      obtain ⟨j, hj, rfl⟩ := List.mem_map.1 hk
      have h' := h.eval l
      rw [he] at h'
      exact ihr h' j hj

/-! ## Loops

An invariant of rounds, for runs that come to their end and for the lookups on
the way. -/

section Loop

variable {test : Machine → Except Halt Bool × Machine}
  {body : Machine → Except Halt Unit × Machine} {I : Machine → Prop}

/-- **What a round keeps, a loop keeps** that comes to its end. A body that
fails ends the loop with its error, so only rounds that run through have to keep
the invariant; the test has to in any case. -/
theorem whileLoop_invariant (htest : ∀ m, I m → I (test m).2)
    (hbody : ∀ m m', I m → body m = (.ok (), m') → I m') {n : Nat}
    {m m' : Machine} (hm : I m) (h : whileLoop test body n m = (.ok (), m')) :
    I m' := by
  induction n generalizing m with
  | zero => cases h
  | succ n ih =>
    rw [whileLoop_succ] at h
    obtain ⟨goesOn, m₁, ht, h⟩ := andThen_eq_ok h
    have hm₁ := htest m hm
    rw [ht] at hm₁
    cases goesOn with
    | false =>
      obtain rfl := (Prod.mk.inj h).2
      exact hm₁
    | true =>
      obtain ⟨_, m₂, hb, h⟩ := andThen_eq_ok h
      exact ih (hbody m₁ m₂ hm₁ hb) h

/-- **Every lookup of a loop** is one of its test or of its body, in a state
that the rounds before it lead to. The states are not computed: all that is
known of them is the invariant that the rounds keep. -/
theorem mem_loopLookups {testLookups bodyLookups : Machine → List Lookup}
    (htest : ∀ m, I m → I (test m).2)
    (hbody : ∀ m m', I m → body m = (.ok (), m') → I m') {n : Nat}
    {m : Machine} (hm : I m) {k : Lookup}
    (hk : k ∈ loopLookups test body testLookups bodyLookups n m) :
    ∃ m', I m' ∧ (k ∈ testLookups m' ∨ k ∈ bodyLookups m') := by
  induction n generalizing m with
  | zero => cases hk
  | succ n ih =>
    rcases List.mem_append.1 hk with hk | hk
    · exact ⟨m, hm, .inl hk⟩
    obtain ⟨goesOn, m₁, ht, hk⟩ := Lookup.mem_behind hk
    have hm₁ := htest m hm
    rw [ht] at hm₁
    split at hk
    · rcases List.mem_append.1 hk with hk | hk
      · exact ⟨m₁, hm₁, .inr hk⟩
      · obtain ⟨_, m₂, hb, hk⟩ := Lookup.mem_behind hk
        exact ih (hbody m₁ m₂ hm₁ hb) hk
    · cases hk

end Loop

/-! ## Statements

What a statement does to the names is of interest only if it runs through, as
nothing is executed behind an error. A definition adds its name (`Stmt.Adds`),
all else keeps the names (`Stmt.Keeps`). -/

theorem Env.Matches.holds {m : Machine} {scopes : List (List String)}
    (h : m.env.Matches scopes) (c : Expr) : (m.holds c).2.env.Matches scopes :=
  h.eval c

namespace Stmt

variable {rounds : Nat} {s : Stmt} {body : List Stmt} {names : List String}
  {outer : List (List String)} {m m' : Machine}

/-- **A statement that runs through adds the name it defines** to the innermost
scope, and nothing else to any scope. Nothing is asked of a statement that is
stopped. -/
def Adds (rounds : Nat) (s : Stmt) : Prop :=
  ∀ ⦃names outer m m'⦄, m.env.Matches (names :: outer) →
    exec rounds s m = (.ok (), m') →
    m'.env.Matches ((names ++ s.definedName?.toList) :: outer)

/-- **A statement that runs through adds no name** to any scope. -/
def Keeps (rounds : Nat) (s : Stmt) : Prop :=
  ∀ ⦃scopes m m'⦄, m.env.Matches scopes → exec rounds s m = (.ok (), m') →
    m'.env.Matches scopes

/-- What keeps the names adds all that it defines, namely none. -/
theorem Keeps.adds (h : s.Keeps rounds) (hn : s.definedName? = none) :
    s.Adds rounds := by
  intro names outer m m' hm he
  rw [hn, Option.toList_none, List.append_nil]
  exact h hm he

/-- And the other way round. The two differ in how they name the innermost
scope. -/
theorem Adds.keeps (h : s.Adds rounds) (hn : s.definedName? = none) :
    s.Keeps rounds := by
  intro scopes m m' hm he
  obtain ⟨names, outer, rfl⟩ := List.exists_cons_of_ne_nil hm.ne_nil
  have h' := h hm he
  rwa [hn, Option.toList_none, List.append_nil] at h'

/-- Statements that run through add the names they define. -/
theorem matches_execAll (h : ∀ s ∈ body, s.Adds rounds)
    (hm : m.env.Matches (names :: outer))
    (he : execAll rounds body m = (.ok (), m')) :
    m'.env.Matches ((names ++ definedNames body) :: outer) := by
  induction body generalizing names m with
  | nil =>
    rw [execAll_nil] at he
    obtain rfl := (Prod.mk.inj he).2
    rwa [definedNames, List.filterMap_nil, List.append_nil]
  | cons s ss ih =>
    obtain ⟨hs, hss⟩ := List.forall_mem_cons.1 h
    rw [execAll_cons] at he
    obtain ⟨_, m₁, hr, he⟩ := andThen_eq_ok he
    have h' := ih hss (hs hm hr) he
    rwa [List.append_assoc, ← definedNames_cons] at h'

/-- A block drops what its list has defined. -/
theorem keeps_block (span : Span) (h : ∀ s ∈ body, s.Adds rounds) :
    (block span body).Keeps rounds := by
  intro scopes m m' hm he
  rw [exec_block] at he
  obtain ⟨hr, rfl⟩ := Prod.mk.inj he
  -- The frame that is dropped is that of the block, as there was one before it.
  exact (matches_execAll h hm.enter (Prod.ext hr rfl)).leave hm.ne_nil

/-- Whichever side is taken, it is no definition. -/
theorem keeps_branch {t : Stmt} {e : Option Stmt} (span : Span) (c : Expr)
    (ht : t.Keeps rounds) (he : ∀ s ∈ e, s.Keeps rounds) :
    (branch span c t e).Keeps rounds := by
  intro scopes m m' hm hr
  have hm₁ := hm.holds c
  rw [exec_branch] at hr
  obtain ⟨holds, m₁, hc, hr⟩ := andThen_eq_ok hr
  rw [hc] at hm₁
  cases holds with
  | true => exact ht hm₁ hr
  | false =>
    cases e with
    | none =>
      obtain rfl := (Prod.mk.inj hr).2
      exact hm₁
    | some s => exact he s rfl hm₁ hr

theorem keeps_loop (span : Span) (c : Expr) (h : s.Keeps rounds) :
    (loop span c s).Keeps rounds := by
  intro scopes m m' hm hr
  rw [exec_loop] at hr
  refine whileLoop_invariant (I := (·.env.Matches scopes)) ?_ ?_ hm hr
  · exact fun m hm => hm.holds c
  · exact fun m m' hm he => h hm he

/-- Expressions add no names. -/
theorem keeps_expression (span : Span) (e : Expr) :
    (expression span e).Keeps rounds := by
  intro scopes m m' hm hr
  have hm₁ := hm.eval e
  rw [exec_expression] at hr
  obtain ⟨v, m₁, he, hr⟩ := andThen_eq_ok hr
  obtain rfl := (Prod.mk.inj hr).2
  obtain rfl := (Prod.mk.inj he).2
  exact hm₁

theorem keeps_print (span : Span) (e : Expr) :
    (print span e).Keeps rounds := by
  intro scopes m m' hm hr
  have hm₁ := hm.eval e
  rw [exec_print] at hr
  obtain ⟨v, m₁, he, hr⟩ := andThen_eq_ok hr
  obtain rfl := (Prod.mk.inj hr).2
  obtain rfl := (Prod.mk.inj he).2
  exact hm₁

/-- The initial value is evaluated before the name is added. -/
theorem adds_define (span : Span) (name : Token) (initial : Option Expr) :
    (define span name initial).Adds rounds := by
  intro names outer m m' hm hr
  rw [exec_define] at hr
  obtain ⟨v, m₁, he, hr⟩ := andThen_eq_ok hr
  obtain rfl := (Prod.mk.inj hr).2
  cases initial with
  | none =>
    obtain rfl := (Prod.mk.inj he).2
    exact hm.define name.lexeme v
  | some e =>
    have hm₁ := hm.eval e
    obtain rfl := (Prod.mk.inj he).2
    exact hm₁.define name.lexeme v

/-- Only a definition adds a name: a block drops what it has defined, and the
parts of a branch and the body of a loop are no definitions. -/
theorem WellPlaced.adds (h : s.WellPlaced) : s.Adds rounds := by
  induction h with
  | block _ ih => exact (keeps_block _ ih).adds rfl
  | expression => exact (keeps_expression _ _).adds rfl
  | branch _ hn _ hns iht ihe =>
    have he := fun s hs => (ihe s hs).keeps (hns s hs)
    exact (keeps_branch _ _ (iht.keeps hn) he).adds rfl
  | print => exact (keeps_print _ _).adds rfl
  | define => exact adds_define _ _ _
  | loop _ hn ih => exact (keeps_loop _ _ (ih.keeps hn)).adds rfl

/-! ## Where lookups end

The same induction once more, for the lookups in place of the state that is
left. -/

/-- Every lookup of a statement is the one that the text has at its place. -/
def Faithful (rounds : Nat) (s : Stmt) : Prop :=
  ∀ ⦃scopes m⦄, m.env.Matches scopes →
    ∀ k ∈ lookups rounds s m, k.At (s.occurrenceAt? scopes k.place)

/-- The statements of a list are executed in the scope of those in front of
them, as `front` is here. -/
theorem lookupsAll_at (hadds : ∀ s ∈ body, s.Adds rounds)
    (h : ∀ s ∈ body, s.Faithful rounds) (front : List Stmt)
    (hm : m.env.Matches (definedNames front :: outer)) :
    ∀ k ∈ lookupsAll rounds body front.length m,
      k.At (occurrenceIn? (front ++ body) outer k.place) := by
  induction body generalizing front m with
  | nil =>
    rw [lookupsAll]
    exact List.forall_mem_nil _
  | cons s ss ih =>
    intro k hk
    obtain ⟨hs, hss⟩ := List.forall_mem_cons.1 h
    obtain ⟨has, hass⟩ := List.forall_mem_cons.1 hadds
    rw [lookupsAll] at hk
    rcases List.mem_append.1 hk with hk | hk
    · obtain ⟨j, hj, rfl⟩ := List.mem_map.1 hk
      show j.At (occurrenceIn? _ outer (.item front.length :: j.place))
      rw [occurrenceIn?_append]
      exact hs hm j hj
    · -- The statement ran through, so its name is in front of the next one.
      obtain ⟨_, m', hr, hk⟩ := Lookup.mem_behind hk
      have hm' := has hm hr
      rw [← definedNames_snoc] at hm'
      have hat := ih hass hss (front ++ [s]) hm' k
      rw [List.length_append, List.append_assoc] at hat
      exact hat hk

/-- The lookups of an expression that is the part of a statement. -/
theorem at_of_mem_map {e : Expr} {scopes : List (List String)} {t : Turn}
    (hm : m.env.Matches scopes) {o? : Place → Option Occurrence}
    (ho : ∀ p, o? (t :: p) = e.occurrenceAt? scopes p) {k : Lookup}
    (hk : k ∈ (e.lookups m.env).map (.within t)) : k.At (o? k.place) := by
  obtain ⟨j, hj, rfl⟩ := List.mem_map.1 hk
  rw [Lookup.at_within]
  show j.At (o? (t :: j.place))
  rw [ho]
  exact Expr.lookups_at hm j hj

/-- The side that is taken is reached behind the condition, in the same scopes.
-/
theorem faithful_branch {t : Stmt} {e : Option Stmt} (span : Span) (c : Expr)
    (ht : t.Faithful rounds) (he : ∀ s ∈ e, s.Faithful rounds) :
    (branch span c t e).Faithful rounds := by
  intro scopes m hm k hk
  rw [lookups] at hk
  rcases List.mem_append.1 hk with hk | hk
  · exact at_of_mem_map hm (fun _ => rfl) hk
  obtain ⟨holds, m', hc, hk⟩ := Lookup.mem_behind hk
  have hm' := hm.holds c
  rw [hc] at hm'
  cases holds with
  | true =>
    obtain ⟨j, hj, rfl⟩ := List.mem_map.1 hk
    exact ht hm' j hj
  | false =>
    cases e with
    | none => cases hk
    | some s =>
      obtain ⟨j, hj, rfl⟩ := List.mem_map.1 hk
      exact he s rfl hm' j hj

/-- The initial value does not see the name that is defined. -/
theorem faithful_define (span : Span) (name : Token) (initial : Option Expr) :
    (define span name initial).Faithful rounds := by
  intro scopes m hm k hk
  cases initial with
  | none =>
    rw [lookups] at hk
    cases hk
  | some e =>
    rw [lookups] at hk
    exact at_of_mem_map hm (fun _ => rfl) hk

/-- The lookups of each round are those of the text, once more. -/
theorem faithful_loop (span : Span) (c : Expr) (hkeeps : s.Keeps rounds)
    (h : s.Faithful rounds) : (loop span c s).Faithful rounds := by
  intro scopes m hm k hk
  rw [lookups] at hk
  -- The frames match the scopes of the loop in front of each of its rounds.
  obtain ⟨m', hm', hk⟩ := mem_loopLookups (I := (·.env.Matches scopes))
    (fun m hm => hm.holds c) (fun m m' hm he => hkeeps hm he) hm hk
  rcases hk with hk | hk
  · exact at_of_mem_map hm' (fun _ => rfl) hk
  · obtain ⟨j, hj, rfl⟩ := List.mem_map.1 hk
    exact h hm' j hj

/-- **Every lookup of a statement is the one that the text has at its place**,
if definitions stand in lists. The scopes at a node are those of the text
whatever way the run has taken to it. -/
theorem WellPlaced.faithful (h : s.WellPlaced) : s.Faithful rounds := by
  induction h with
  | block hb ih =>
    intro scopes m hm k hk
    rw [lookups] at hk
    rw [occurrenceAt?_block]
    exact lookupsAll_at (fun s hs => (hb s hs).adds) ih [] hm.enter k hk
  | expression | print =>
    intro scopes m hm k hk
    rw [lookups] at hk
    exact at_of_mem_map hm (fun _ => rfl) hk
  | branch _ _ _ _ iht ihe => exact faithful_branch _ _ iht ihe
  | define => exact faithful_define _ _ _
  | loop hb hn ih => exact faithful_loop _ _ (hb.adds.keeps hn) ih

end Stmt

end TreeScript
