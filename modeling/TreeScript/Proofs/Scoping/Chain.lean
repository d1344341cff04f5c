import TreeScript.Proofs.Scoping.Forest
import TreeScript.Proofs.Scoping.Lookup

/-!
# The environment of a run is a chain of scopes

Scopes are told of in two ways. A running program has an environment, a stack of
frames with the global frame at its bottom (`Env`). Scopes in themselves lie in a
forest (`Forest`), where each knows the scope around it and may be shared. This
module shows that the first is a view of the second: whoever stands in a scope of a
forest has before him the frames from this scope outwards, and these are the frames
of the environment (`Env.Mirrors`).

To enter a block is then to add a scope inside the present one and to go there, to
leave it is to go back to the scope around, and to define or assign is to do so in
the forest. A scope that was left stays in the forest but is not seen any more,
which is why a stack is enough for a run: nothing leads back to it. The one thing
to be shown about the forest is that an assignment that changes one of its scopes
changes one frame of the stack and not two. It holds since the scopes from one
outwards are all different, each being younger than the next
(`Forest.Layered.pairwise_chain`).

Everything that a run does with its environment is made of these four acts
(`Stmt.acts_execAll`), so that environment and forest go together through whole
runs, from any state on (`mirrors_execAll`).

Both descriptions are needed. The stack is what a run has in its hands, and what
is observed of it; the forest is what a caller of the environment can build,
with scopes that live on beside each other. Laws about sharing (`scopes_shared`)
are about the forest, laws about runs are about the stack, and it is by this
module that the former say something about the latter.
-/

namespace TreeScript

/-! ## The scopes from one outwards

Every scope lies in an older one, so a walk outwards goes down in the order of
age. What is wanted from this is that its scopes are different, and that a scope
added later is not among them. -/

namespace Forest

variable {f : Forest}

/-- No scope further out is younger. -/
theorem Layered.le_of_mem_chain (h : f.Layered) {i j : Nat}
    (hj : j ∈ f.chain i) : j ≤ i := by
  induction i using Nat.strongRecOn with
  | _ i ih =>
    by_cases hi : i < f.size
    · rw [h.chain_eq hi] at hj
      rcases List.mem_cons.1 hj with rfl | hj
      · exact Nat.le_refl j
      · cases hp : f.parent? i with
        | none =>
          rw [hp] at hj
          cases hj
        | some p =>
          rw [hp] at hj
          exact Nat.le_trans (ih p (h.parent_lt hp) hj)
            (Nat.le_of_lt (h.parent_lt hp))
    · rw [chain_of_le (Nat.le_of_not_lt hi)] at hj
      cases hj

/-- **The scopes from one outwards are older and older**, so that none of them
comes twice. The order is all that is used of the walk from here on; that it
ends was shown with the forest. -/
theorem Layered.pairwise_chain (h : f.Layered) (i : Nat) :
    (f.chain i).Pairwise (fun a b => b < a) := by
  induction i using Nat.strongRecOn with
  | _ i ih =>
    by_cases hi : i < f.size
    · rw [h.chain_eq hi]
      cases hp : f.parent? i with
      | none => exact List.pairwise_singleton _ i
      | some p =>
        have hlt := h.parent_lt hp
        exact List.pairwise_cons.2
          ⟨fun j hj => Nat.lt_of_le_of_lt (h.le_of_mem_chain hj) hlt, ih p hlt⟩
    · rw [chain_of_le (Nat.le_of_not_lt hi)]
      exact List.Pairwise.nil

/-- A definition in another scope is not seen in these. -/
theorem map_frame_define {js : List Nat} {k : Nat} (hk : k ∉ js) (name : String)
    (v : Value) : js.map (f.define k name v).frame = js.map f.frame := by
  refine List.map_congr_left fun j hj => ?_
  rw [frame_define, if_neg]
  rintro ⟨rfl, -⟩
  exact hk hj

/-- An assignment along some scopes changes one of them. -/
theorem exists_of_overwriteAlong {g : Forest} {name : String} {v : Value}
    {js : List Nat} (h : f.overwriteAlong name v js = some g) :
    ∃ k ∈ js, g = f.define k name v := by
  induction js with
  | nil => cases h
  | cons j js ih =>
    unfold overwriteAlong at h
    split at h
    · exact ⟨j, .head _, (Option.some.inj h).symm⟩
    · obtain ⟨k, hk, hg⟩ := ih h
      exact ⟨k, .tail _ hk, hg⟩

/-- **An assignment along scopes is one along their frames.** It changes the frame
of one scope, and as the scopes are different, of one only. -/
theorem map_overwriteAlong {name : String} {v : Value} {js : List Nat}
    (hdistinct : js.Pairwise (fun a b => b < a)) (hlt : ∀ j ∈ js, j < f.size) :
    (f.overwriteAlong name v js).map (fun g => js.map g.frame)
      = overwriteFrames name v (js.map f.frame) := by
  induction js with
  | nil => rfl
  | cons j js ih =>
    obtain ⟨hj, hjs⟩ := List.pairwise_cons.1 hdistinct
    have hnot {k : Nat} (hk : k ∈ js) : k ≠ j := Nat.ne_of_lt (hj k hk)
    obtain ⟨hjlt, hlt⟩ := List.forall_mem_cons.1 hlt
    unfold overwriteAlong
    rw [List.map_cons, overwriteFrames]
    by_cases hdef : (f.frame j).defines name
    · rw [if_pos hdef, if_pos hdef, Option.map_some, List.map_cons,
        map_frame_define (fun hk => hnot hk rfl), frame_define,
        if_pos ⟨rfl, hjlt⟩]
    · rw [if_neg hdef, if_neg hdef, ← ih hjs hlt, Option.map_map]
      cases hg : f.overwriteAlong name v js with
      | none => rfl
      | some g =>
        -- The scope that was changed lies further out, so `j` is as before.
        obtain ⟨k, hk, rfl⟩ := exists_of_overwriteAlong hg
        have hframe : (f.define k name v).frame j = f.frame j := by
          rw [frame_define, if_neg fun hkj => hnot hk hkj.1]
        rw [Option.map_some, Option.map_some, Function.comp_apply, List.map_cons,
          hframe]

theorem frame_push_of_lt (outward : List Nat) {i : Nat} (hi : i < f.size) :
    (f.push outward).frame i = f.frame i := by
  unfold frame push
  rw [List.getElem?_append_left hi]

theorem frame_push_size (outward : List Nat) :
    (f.push outward).frame f.size = .empty := by
  simp [frame, push, size]

end Forest

/-! ## Acts on scopes

The four acts are those of the evaluator. In the forest they are operations
(`Forest.Op`) together with the step of the program itself, from the scope it
stands in to another one. -/

/-- **What a running program does with its scopes.** -/
inductive ScopeAct where
  /-- A block is entered. -/
  | enter
  /-- A block is left. -/
  | leave
  /-- A name is defined in the present scope. -/
  | define (name : String) (v : Value)
  /-- A name that is seen from the present scope is assigned to. -/
  | assign (name : String) (v : Value)

/-- The environment after an act. An assignment that fails changes nothing. -/
def Env.act (env : Env) : ScopeAct → Env
  | .enter => env.enter
  | .leave => env.leave
  | .define name v => env.define name v
  | .assign name v => (env.overwrite? name v).getD env

/-- **A scope of a forest that a program stands in.** That the scopes are
layered is kept with it, so that it need not be shown again after each act. -/
structure Standing where
  /-- The scopes that there are. -/
  forest : Forest
  /-- The present scope. -/
  scope : Nat
  /-- Each scope lies in an older one. -/
  layered : forest.Layered
  /-- The present scope is one of them. -/
  scope_lt : scope < forest.size

namespace Standing

/-- In the only scope of a forest. -/
def start : Standing where
  forest := .grown [.root]
  scope := 0
  layered := .grown [.root]
  scope_lt := Nat.zero_lt_one

/-- The frames from the present scope outwards. -/
def frames (s : Standing) : List Frame :=
  (s.forest.chain s.scope).map s.forest.frame

/-- To change the forest by an operation that adds no scope leaves the program
where it is. -/
def change (s : Standing) (op : Forest.Op)
    (h : (s.forest.perform op).size = s.forest.size) : Standing where
  forest := s.forest.perform op
  scope := s.scope
  layered := s.layered.perform op
  scope_lt := h ▸ s.scope_lt

theorem size_perform_overwrite (s : Standing) (name : String) (v : Value) :
    (s.forest.perform (.overwrite s.scope name v)).size = s.forest.size := by
  rcases s.forest.overwrite_cases s.scope name v with heq | ⟨k, heq⟩
  · rw [heq]
  · rw [heq, Forest.size_define]

/-- **Where the program stands after an act.** A block that is entered is a new
scope inside the present one; to leave a block is to go back to the scope around
it, if there is one. -/
def act (s : Standing) : ScopeAct → Standing
  | .enter =>
    { forest := s.forest.perform (.child s.scope)
      scope := s.forest.size
      layered := s.layered.perform _
      scope_lt := by simp [Forest.perform, Forest.child, Forest.size] }
  | .leave =>
    { s with
      scope := (s.forest.parent? s.scope).getD s.scope
      scope_lt := by
        cases hp : s.forest.parent? s.scope with
        | none => exact s.scope_lt
        | some p => exact Nat.lt_trans (s.layered.parent_lt hp) s.scope_lt }
  | .define name v =>
    s.change (.define s.scope name v) (Forest.size_define ..)
  | .assign name v =>
    s.change (.overwrite s.scope name v) (s.size_perform_overwrite name v)

end Standing

/-! ## Environments and forests

One lemma for each act, on the environment and on the forest in step. -/

/-- **An environment mirrors a scope of a forest**: its frames are those from
the scope outwards. Nothing is said of the scopes that cannot be seen from
there. -/
def Env.Mirrors (env : Env) (s : Standing) : Prop := env.frames = s.frames

namespace Env.Mirrors

variable {env : Env} {s : Standing}

/-- A run begins in the global scope, and no block is open. -/
theorem start : ({} : Env).Mirrors .start := rfl

/-- **A name means the same** in the environment and in the forest. Both go
through the same frames in the same order. -/
theorem find? (h : env.Mirrors s) (name : String) :
    env.find? name = s.forest.find? s.scope name := by
  rw [find?_eq_findSome?, h, Standing.frames, List.findSome?_map]
  rfl

/-- The frame without names that a block puts in front is that of the scope it
adds. The frames behind are the same, since their scopes are older. -/
theorem enter (h : env.Mirrors s) : (env.act .enter).Mirrors (s.act .enter) := by
  -- The new scope lies around nothing and everything around it is as before.
  show Frame.empty :: env.frames = _
  have hchain : ((s.forest.push (s.forest.chain s.scope)).chain s.forest.size)
      = s.forest.size :: s.forest.chain s.scope :=
    Forest.chain_push_size ..
  show _ = ((s.forest.push (s.forest.chain s.scope)).chain s.forest.size).map _
  rw [hchain, List.map_cons]
  refine congr (congrArg _ (Forest.frame_push_size _).symm) (h.trans ?_)
  refine List.map_congr_left fun j hj => ?_
  have hlt := Nat.lt_of_le_of_lt (s.layered.le_of_mem_chain hj) s.scope_lt
  exact (Forest.frame_push_of_lt _ hlt).symm

/-- The global scope has nothing around it, and the global frame cannot be
left. -/
theorem leave (h : env.Mirrors s) : (env.act .leave).Mirrors (s.act .leave) := by
  have hframes : env.blocks ++ [env.globals] = s.forest.frame s.scope
      :: (((s.forest.parent? s.scope).map s.forest.chain).getD []).map
        s.forest.frame := by
    rw [show env.blocks ++ [env.globals] = s.frames from h, Standing.frames,
      s.layered.chain_eq s.scope_lt, List.map_cons]
  show env.blocks.tail ++ [env.globals]
    = (s.forest.chain ((s.forest.parent? s.scope).getD s.scope)).map
      s.forest.frame
  cases hp : s.forest.parent? s.scope with
  | none =>
    rw [hp] at hframes
    have hblocks : env.blocks = [] := by
      simpa using congrArg List.length hframes
    rw [Option.getD_none, s.layered.chain_eq s.scope_lt, hp, List.map_cons,
      ← hframes, hblocks]
    rfl
  | some p =>
    rw [hp, Option.map_some, Option.getD_some] at hframes
    -- If a scope lies around the present one, there is a block to leave.
    cases hblocks : env.blocks with
    | nil =>
      -- There are two scopes at least, but one frame.
      rw [hblocks] at hframes
      have hlt := Nat.lt_trans (s.layered.parent_lt hp) s.scope_lt
      have hnil := (List.cons.inj hframes).2
      rw [s.layered.chain_eq hlt] at hnil
      cases hnil
    | cons b bs =>
      rw [hblocks] at hframes
      exact (List.cons.inj hframes).2

/-- A definition changes the first frame. Its scope comes only once on the way
outwards, so no other frame changes. -/
theorem define (h : env.Mirrors s) (name : String) (v : Value) :
    (env.act (.define name v)).Mirrors (s.act (.define name v)) := by
  have hframes : (env.define name v).frames
      = env.frames.modifyHead (·.define name v) := by
    unfold Env.define frames
    cases env.blocks <;> rfl
  show (env.define name v).frames
    = ((s.forest.define s.scope name v).chain s.scope).map
      (s.forest.define s.scope name v).frame
  have hchain := s.layered.pairwise_chain s.scope
  rw [hframes, h, Standing.frames, Forest.chain_define]
  rw [s.layered.chain_eq s.scope_lt] at hchain ⊢
  have hout := (List.pairwise_cons.1 hchain).1
  rw [List.map_cons, List.map_cons, List.modifyHead_cons,
    Forest.map_frame_define fun hk => Nat.lt_irrefl _ (hout _ hk),
    Forest.frame_define, if_pos ⟨rfl, s.scope_lt⟩]

/-- An assignment walks outwards in both, past the same frames, and fails in
both or in none. -/
theorem assign (h : env.Mirrors s) (name : String) (v : Value) :
    (env.act (.assign name v)).Mirrors (s.act (.assign name v)) := by
  have hlt : ∀ j ∈ s.forest.chain s.scope, j < s.forest.size := fun j hj =>
    Nat.lt_of_le_of_lt (s.layered.le_of_mem_chain hj) s.scope_lt
  have halong : (env.overwrite? name v).map frames
      = (s.forest.overwrite? s.scope name v).map
          fun g => (s.forest.chain s.scope).map g.frame := by
    rw [frames_overwrite?, h]
    exact (Forest.map_overwriteAlong (s.layered.pairwise_chain s.scope) hlt).symm
  show ((env.overwrite? name v).getD env).frames
    = (((s.forest.overwrite? s.scope name v).getD s.forest).chain s.scope).map
      ((s.forest.overwrite? s.scope name v).getD s.forest).frame
  cases hg : s.forest.overwrite? s.scope name v with
  | none =>
    rw [hg] at halong
    rw [Option.map_eq_none_iff.1 halong]
    exact h
  | some g =>
    rw [hg] at halong
    obtain ⟨env', henv, hframes⟩ := Option.map_eq_some_iff.1 halong
    obtain ⟨k, -, rfl⟩ := Forest.exists_of_overwriteAlong hg
    rw [henv, Option.getD_some, Option.getD_some, hframes, Forest.chain_define]

/-- **What an act does to the environment, it does to the forest.** -/
theorem act (h : env.Mirrors s) (a : ScopeAct) : (env.act a).Mirrors (s.act a) := by
  cases a with
  | enter => exact h.enter
  | leave => exact h.leave
  | define name v => exact h.define name v
  | assign name v => exact h.assign name v

/-- **Environment and forest go together** through all acts. The forest grows
along the acts, and the scopes that were left stay in it without being seen. -/
theorem foldl_act (h : env.Mirrors s) (acts : List ScopeAct) :
    (acts.foldl Env.act env).Mirrors (acts.foldl Standing.act s) := by
  induction acts generalizing env s with
  | nil => exact h
  | cons a acts ih => exact ih (h.act a)

end Env.Mirrors

/-! ## Runs

That a run is made of acts is an invariant of evaluation and execution, put
together by the rules for sequences and loops. -/

/-- **Acts lead from one environment to another.** -/
def Env.ActsTo (env env' : Env) : Prop :=
  ∃ acts : List ScopeAct, acts.foldl Env.act env = env'

namespace Env.ActsTo

theorem refl (env : Env) : env.ActsTo env := ⟨[], rfl⟩

theorem single (env : Env) (a : ScopeAct) : env.ActsTo (env.act a) := ⟨[a], rfl⟩

theorem trans {env₁ env₂ env₃ : Env} (h : env₁.ActsTo env₂)
    (h' : env₂.ActsTo env₃) : env₁.ActsTo env₃ := by
  obtain ⟨acts, rfl⟩ := h
  obtain ⟨more, rfl⟩ := h'
  exact ⟨acts ++ more, List.foldl_append⟩

end Env.ActsTo

/-- Assigning to a name is an act, also if the name has no definition. -/
theorem Expr.acts_store (name : Token) (v : Value) (env : Env) :
    env.ActsTo (store name v env).2 := by
  have hact : env.ActsTo (env.act (.assign name.lexeme v)) := .single env _
  rw [Env.act] at hact
  unfold store
  cases ho : env.overwrite? name.lexeme v with
  | some env' =>
    rw [ho] at hact
    exact hact
  | none => exact .refl env

/-- Evaluating an expression only assigns to names. -/
theorem Expr.acts_eval (e : Expr) (env : Env) : env.ActsTo (e.eval env).2 := by
  induction e generalizing env with
  | literal t => exact .refl env
  | reference name =>
    unfold eval
    split <;> exact .refl env
  | grouping e ih => exact ih env
  | assign name e ih =>
    rw [eval_assign]
    exact andThen_keeps (I := env.ActsTo) (ih env)
      fun v env' h => h.trans (acts_store name v env')
  | unary op e ih =>
    rw [eval_unary]
    exact andThen_keeps (I := env.ActsTo) (ih env) fun _ _ h => h
  | binary op l r ihl ihr =>
    rw [eval_binary]
    refine andThen_keeps (I := env.ActsTo) (ihl env) fun x env₁ h => ?_
    exact andThen_keeps (I := env.ActsTo) (h.trans (ihr env₁)) fun _ _ h => h

namespace Stmt

variable {rounds : Nat}

/-- The step for lists of statements, as far as they are executed. -/
theorem acts_execAll_of_forall {body : List Stmt}
    (h : ∀ s ∈ body, ∀ m : Machine, m.env.ActsTo (exec rounds s m).2.env)
    (m : Machine) :
    m.env.ActsTo (execAll rounds body m).2.env := by
  induction body generalizing m with
  | nil =>
    rw [execAll_nil]
    exact .refl m.env
  | cons s ss ih =>
    obtain ⟨hs, hss⟩ := List.forall_mem_cons.1 h
    rw [execAll_cons]
    exact andThen_keeps (I := fun m' : Machine => m.env.ActsTo m'.env) (hs m)
      fun _ m' h => h.trans (ih hss m')

/-- **Executing a statement is made of acts**: a block enters and leaves, whether
it was stopped inside or not, a definition defines, and the rest is left to the
expressions. -/
theorem acts_exec (s : Stmt) (m : Machine) :
    m.env.ActsTo (exec rounds s m).2.env := by
  -- Whatever comes next is done behind acts that lead from `m` to where it begins.
  have heval (m : Machine) (e : Expr) : m.env.ActsTo (m.eval e).2.env :=
    e.acts_eval m.env
  have hholds (m : Machine) (c : Expr) : m.env.ActsTo (m.holds c).2.env :=
    c.acts_eval m.env
  induction s generalizing m with
  | block span body ih =>
    rw [exec_block]
    have hbody := acts_execAll_of_forall ih m.enter
    exact ((Env.ActsTo.single m.env .enter).trans hbody).trans
      (.single _ .leave)
  | expression span e =>
    rw [exec_expression]
    exact andThen_keeps (I := fun m' : Machine => m.env.ActsTo m'.env)
      (heval m e) fun _ _ h => h
  | branch span c t e iht ihe =>
    rw [exec_branch]
    refine andThen_keeps (I := fun m' : Machine => m.env.ActsTo m'.env)
      (hholds m c) fun holds m' h => ?_
    cases holds with
    | true => exact h.trans (iht m')
    | false =>
      cases e with
      | none => exact h
      | some s => exact h.trans (ihe s rfl m')
  | print span e =>
    rw [exec_print]
    exact andThen_keeps (I := fun m' : Machine => m.env.ActsTo m'.env)
      (heval m e) fun _ _ h => h
  | define span name initial =>
    rw [exec_define]
    refine andThen_keeps (I := fun m' : Machine => m.env.ActsTo m'.env) ?_
      fun v m' h => h.trans (.single m'.env (.define name.lexeme v))
    cases initial with
    | none => exact .refl m.env
    | some e => exact heval m e
  | loop span c body ih =>
    rw [exec_loop]
    exact whileLoop_keeps (I := fun m' : Machine => m.env.ActsTo m'.env)
      (fun m' h => h.trans (hholds m' c)) (fun m' h => h.trans (ih m')) rounds
      (.refl m.env)

/-- Statements are made of acts, however the last of them ended. -/
theorem acts_execAll (body : List Stmt) (m : Machine) :
    m.env.ActsTo (execAll rounds body m).2.env :=
  acts_execAll_of_forall (fun s _ => acts_exec s) m

end Stmt

/-- **The environment of a run is a chain of scopes.** Whatever statements are
executed, and in whatever scope of a forest the run begins: there are acts which
lead from its first environment to its last and, done in the forest, to a scope
that the last environment mirrors. So every name means in it what it means in that
scope of the forest. -/
theorem mirrors_execAll (rounds : Nat) (body : List Stmt) {m : Machine}
    {s : Standing} (h : m.env.Mirrors s) :
    ∃ acts : List ScopeAct,
      (Stmt.execAll rounds body m).2.env = acts.foldl Env.act m.env
        ∧ (Stmt.execAll rounds body m).2.env.Mirrors (acts.foldl Standing.act s)
        ∧ ∀ name, (Stmt.execAll rounds body m).2.env.find? name
          = (acts.foldl Standing.act s).forest.find?
              (acts.foldl Standing.act s).scope name := by
  have hacts : m.env.ActsTo (Stmt.execAll rounds body m).2.env :=
    Stmt.acts_execAll body m
  obtain ⟨acts, hacts⟩ := hacts
  have hmirrors := h.foldl_act acts
  rw [hacts] at hmirrors
  exact ⟨acts, hacts.symm, hmirrors, hmirrors.find?⟩

end TreeScript
