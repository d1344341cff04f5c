import TreeScript.Proofs.Exec.Steps
import TreeScript.Proofs.Scoping.Static

/-!
# Lookups of a run

Names are looked up while a program runs, by a walk from the innermost frame
outwards. `Env.Resolves` says where such a walk ends, and what is read or
assigned to there.

`Stmt.lookups` lists all lookups of a run in the order they are made: each with
the place of the node that made it, and the environment it was made in. A loop
makes the lookups of its condition and its body once for each round, and what
stands behind an error makes none.

A run ends with an undefined variable exactly if one of its lookups finds
nothing, and then it is that variable (`Stmt.faults_lookupsAll`).

The list is written along the definitions of evaluation and execution, and asks
them for the state in which the next part is reached. So it follows a run
without being part of it. That nothing is missing from it is what
`Stmt.faults_lookupsAll` says from outside: the one fault that a lookup can lead
to, a name without definition, comes from a lookup in this list.
-/

namespace TreeScript

/-! ## Walks

The scopes of a running program are a stack of frames, the globals being the
last. Reading a name and assigning to it are written as two recursions over this
stack; both end at the same frame, and `Env.depth?` is its number. -/

namespace Env

/-- The number of frames that are passed until a name is found, if it is. -/
def depth? (env : Env) (name : String) : Option Nat :=
  env.frames.findIdx? (·.defines name)

/-- **A walk for a name ends at frame number `d`**: no frame before it defines
the name, and the name is read and assigned to in this frame. Without `d` the
name can be neither read nor assigned to. -/
structure Resolves (env : Env) (name : String) (d : Option Nat) : Prop where
  /-- The frame is the first that defines the name. -/
  depth : env.depth? name = d
  /-- The name has its value in this frame. -/
  reads : env.find? name = d.bind fun i => env.frames[i]?.bind (·.find? name)
  /-- An assignment changes the name in this frame and nothing else. -/
  assigns : ∀ v, (env.overwrite? name v).map frames
    = d.map fun i => env.frames.modify i (·.define name v)

/-- Reading walks through the blocks and then looks at the globals, which is one
walk through all frames. -/
theorem find?_eq_findSome? (env : Env) (name : String) :
    env.find? name = env.frames.findSome? (·.find? name) := by
  unfold find? frames
  rw [List.findSome?_append, List.findSome?_singleton]

/-- What such a walk finds is what the first frame has that defines the name. -/
theorem findSome?_frames (name : String) (fs : List Frame) :
    fs.findSome? (·.find? name)
      = (fs.findIdx? (·.defines name)).bind
          fun i => fs[i]?.bind (·.find? name) := by
  induction fs with
  | nil => rfl
  | cons f fs ih =>
    rw [List.findSome?_cons, List.findIdx?_cons]
    by_cases h : f.defines name
    · obtain ⟨v, hv⟩ := Frame.defines_iff.1 h
      simp [h, hv]
    · have hn := Frame.not_defines_iff.1 h
      rw [if_neg h, hn, ih, Option.bind_map]
      rfl

/-- An assignment changes this same frame. -/
theorem overwriteFrames_eq (name : String) (v : Value) (fs : List Frame) :
    overwriteFrames name v fs
      = (fs.findIdx? (·.defines name)).map
          fun i => fs.modify i (·.define name v) := by
  induction fs with
  | nil => rfl
  | cons f fs ih =>
    rw [overwriteFrames, List.findIdx?_cons]
    by_cases h : f.defines name
    · simp [h]
    · rw [if_neg h, if_neg h, ih, Option.map_map, Option.map_map]
      rfl

/-- The walk through two stacks of frames, one behind the other. -/
theorem overwriteFrames_append (name : String) (v : Value)
    (fs gs : List Frame) :
    overwriteFrames name v (fs ++ gs)
      = ((overwriteFrames name v fs).map (· ++ gs)).or
          ((overwriteFrames name v gs).map (fs ++ ·)) := by
  induction fs with
  | nil => simp [overwriteFrames]
  | cons f fs ih =>
    by_cases h : f.defines name
    · simp [overwriteFrames, h]
    · simp [overwriteFrames, h, ih, Option.map_or, Function.comp_def]

/-- An assignment is an assignment in the stack of all frames. -/
theorem frames_overwrite? (env : Env) (name : String) (v : Value) :
    (env.overwrite? name v).map frames
      = overwriteFrames name v env.frames := by
  unfold overwrite? frames
  rw [overwriteFrames_append]
  cases overwriteFrames name v env.blocks with
  | some fs => rfl
  | none =>
    by_cases h : env.globals.defines name
    · simp [overwriteFrames, h]
    · simp [overwriteFrames, h]

theorem resolves_depth? (env : Env) (name : String) :
    env.Resolves name (env.depth? name) where
  depth := rfl
  reads := by rw [find?_eq_findSome?, findSome?_frames]; rfl
  assigns v := by rw [frames_overwrite?, overwriteFrames_eq]; rfl

/-- A name means nothing just when no frame defines it. -/
theorem find?_eq_none_iff {env : Env} {name : String} :
    env.find? name = none ↔ env.depth? name = none := by
  rw [find?_eq_findSome?, depth?, List.findSome?_eq_none_iff,
    List.findIdx?_eq_none_iff]
  simp [Frame.defines]

end Env

/-! ## Lookups

A lookup is recorded with all that is needed to ask about it later: the node,
the name, and the environment in which the node was reached. -/

/-- **A lookup** that was made while a program ran. The environment is kept as a
whole, since what a lookup finds and what an assignment changes are both
properties of it. -/
structure Lookup where
  /-- The node that made it. -/
  place : Place
  /-- The name that was looked up. -/
  name : Token
  /-- The environment it was looked up in. -/
  env : Env

namespace Lookup

/-- The lookup as one of the whole tree, if it is one of the part behind a
turn. -/
def within (t : Turn) (k : Lookup) : Lookup := { k with place := t :: k.place }

/-- The error that a lookup leads to if it finds nothing. -/
def fault? (k : Lookup) : Option RuntimeError :=
  match k.env.find? k.name.lexeme with
  | some _ => none
  | none => some (undefinedVariable k.name)

/-- The lookups that are made if a step succeeds. -/
def behind {ε α σ : Type} (r : Except ε α × σ) (f : α → σ → List Lookup) :
    List Lookup :=
  match r with
  | (.ok a, s) => f a s
  | (.error _, _) => []

/-- A lookup behind a step was made only if the step succeeded. -/
theorem mem_behind {ε α σ : Type} {r : Except ε α × σ}
    {f : α → σ → List Lookup} {k : Lookup} (h : k ∈ behind r f) :
    ∃ a s, r = (.ok a, s) ∧ k ∈ f a s := by
  match r with
  | (.ok a, s) => exact ⟨a, s, rfl, h⟩
  | (.error _, _) => cases h

end Lookup

/-- **The lookups of an expression**, in the order they are made. The name on the
left of an assignment is looked up once the right side has a value. -/
def Expr.lookups : Expr → Env → List Lookup
  | literal _, _ => []
  | reference name, env => [⟨[], name, env⟩]
  | grouping e, env => (e.lookups env).map (.within .value)
  | assign name e, env =>
    (e.lookups env).map (.within .value)
      ++ Lookup.behind (e.eval env) fun _ env => [⟨[], name, env⟩]
  | unary _ e, env => (e.lookups env).map (.within .value)
  | binary _ l r, env =>
    (l.lookups env).map (.within .lhs)
      ++ Lookup.behind (l.eval env) fun _ env => (r.lookups env).map (.within .rhs)

/-- The lookups of a loop, from those of its test and of its body. -/
def loopLookups (test : Machine → Except Halt Bool × Machine)
    (body : Machine → Except Halt Unit × Machine)
    (testLookups bodyLookups : Machine → List Lookup) :
    Nat → Machine → List Lookup
  | 0, _ => []
  | n + 1, m =>
    testLookups m ++ Lookup.behind (test m) fun goesOn m =>
      if goesOn then
        bodyLookups m ++ Lookup.behind (body m) fun _ m =>
          loopLookups test body testLookups bodyLookups n m
      else []

namespace Stmt

mutual

/-- **The lookups of a statement**, in the order they are made. -/
def lookups (rounds : Nat) : Stmt → Machine → List Lookup
  | block _ body, m => lookupsAll rounds body 0 m.enter
  | expression _ e, m => (e.lookups m.env).map (.within .value)
  | branch _ c thenStmt elseStmt, m =>
    (c.lookups m.env).map (.within .condition)
      ++ Lookup.behind (m.holds c) fun holds m =>
        if holds then (lookups rounds thenStmt m).map (.within .thenStmt)
        else
          match elseStmt with
          | some s => (lookups rounds s m).map (.within .elseStmt)
          | none => []
  | print _ e, m => (e.lookups m.env).map (.within .value)
  | define _ _ none, _ => []
  | define _ _ (some e), m => (e.lookups m.env).map (.within .value)
  | loop _ c body, m =>
    loopLookups (·.holds c) (exec rounds body)
      (fun m => (c.lookups m.env).map (.within .condition))
      (fun m => (lookups rounds body m).map (.within .body)) rounds m

/-- **The lookups of statements in a list**, the first of which has number
`i`. -/
def lookupsAll (rounds : Nat) : List Stmt → Nat → Machine → List Lookup
  | [], _, _ => []
  | s :: ss, i, m =>
    (lookups rounds s m).map (.within (.item i))
      ++ Lookup.behind (exec rounds s m) fun _ m => lookupsAll rounds ss (i + 1) m

end

end Stmt

/-! ## Lookups that find nothing

Both sides of the equation to be shown are lists with at most one element: the
errors of lookups that find nothing, and the error of the run if it is one of
these. As lists they can be put together along the sequence of steps. -/

/-- The error that execution stopped for, if it is an undefined variable. -/
def Halt.unbound : Halt → List RuntimeError
  | .error ⟨span, .undefinedVariable name⟩ => [⟨span, .undefinedVariable name⟩]
  | _ => []

/-- The error of an outcome, if it is an undefined variable. -/
def unbound {α : Type} : Except Halt α → List RuntimeError
  | .error h => h.unbound
  | .ok _ => []

/-- The errors of the lookups that find nothing. -/
def faults (ks : List Lookup) : List RuntimeError := ks.filterMap Lookup.fault?

theorem faults_of_some {p : Place} {name : Token} {env : Env} {v : Value}
    (h : env.find? name.lexeme = some v) : faults [⟨p, name, env⟩] = [] := by
  simp [faults, Lookup.fault?, h]

/-- One that finds nothing leads to the error of its name. -/
theorem faults_of_none {p : Place} {name : Token} {env : Env}
    (h : env.find? name.lexeme = none) :
    faults [⟨p, name, env⟩] = [undefinedVariable name] := by
  simp [faults, Lookup.fault?, h]

/-- Errors of lookups that are made one after the other. -/
theorem faults_append (ks ls : List Lookup) :
    faults (ks ++ ls) = faults ks ++ faults ls :=
  List.filterMap_append

/-- A lookup of a part is one of the whole. -/
@[simp] theorem faults_within (t : Turn) (ks : List Lookup) :
    faults (ks.map (.within t)) = faults ks := by
  unfold faults
  rw [List.filterMap_map]
  rfl

/-- The outcome of an expression as one of a machine. -/
abbrev Expr.outcome (e : Expr) (env : Env) : Except Halt Value :=
  (e.eval env).1.mapError .error

/-- A literal that stands for no value is an error of another kind. -/
theorem unbound_literalValue (t : Token) :
    unbound ((literalValue t).mapError .error) = [] := by
  unfold literalValue
  split
  · split <;> rfl
  all_goals rfl

theorem unbound_unary (op : Located UnaryOp) (v : Value) :
    unbound ((UnaryOp.apply op v).mapError .error) = [] := by
  unfold UnaryOp.apply
  split <;> rfl

theorem unbound_binary (op : Located BinaryOp) (x y : Value) :
    unbound ((BinaryOp.apply op x y).mapError .error) = [] := by
  have hn (f : Float → Float → Value) :
      unbound ((BinaryOp.onNumbers op f x y).mapError .error) = [] := by
    unfold BinaryOp.onNumbers
    split <;> rfl
  unfold BinaryOp.apply
  split
  · unfold BinaryOp.sum
    split <;> rfl
  all_goals first | rfl | exact hn _

/-- **An expression fails at an undefined variable exactly if a lookup of it
finds nothing.** Wrong operands and literals without value are other errors, and
they leave both sides empty. -/
theorem Expr.faults_lookups (e : Expr) (env : Env) :
    faults (e.lookups env) = unbound (e.outcome env) := by
  induction e generalizing env with
  | literal t => exact (unbound_literalValue t).symm
  | reference name =>
    unfold lookups outcome eval
    cases h : env.find? name.lexeme with
    | some v => exact faults_of_some h
    | none => exact faults_of_none h
  | grouping e ih =>
    rw [lookups, faults_within, ih]
    rfl
  | unary op e ih =>
    rw [lookups, faults_within, ih]
    unfold outcome
    rw [eval_unary]
    rcases e.eval env with ⟨_ | v, env'⟩
    · rfl
    · exact (unbound_unary op v).symm
  | assign name e ih =>
    rw [lookups, faults_append, faults_within, ih]
    unfold outcome
    rw [eval_assign]
    rcases e.eval env with ⟨_ | v, env'⟩
    · exact List.append_nil _
    · show faults [⟨[], name, env'⟩] = unbound ((store name v env').1.mapError _)
      unfold store
      -- A name can be assigned to exactly if it would be found.
      have hs := Env.isSome_overwrite? env' name.lexeme v
      cases ho : env'.overwrite? name.lexeme v with
      | some env'' =>
        rw [ho] at hs
        obtain ⟨w, hw⟩ := Option.isSome_iff_exists.1 hs.symm
        exact faults_of_some hw
      | none =>
        rw [ho] at hs
        exact faults_of_none (by simpa using hs.symm)
  | binary op l r ihl ihr =>
    rw [lookups, faults_append, faults_within, ihl]
    unfold outcome
    rw [eval_binary]
    rcases l.eval env with ⟨_ | x, env'⟩
    · exact List.append_nil _
    · -- The right operand is reached only behind a value of the left one.
      show faults ((r.lookups env').map (.within .rhs))
        = unbound ((andThen (r.eval env') _).1.mapError _)
      rw [faults_within, ihr]
      unfold outcome
      rcases r.eval env' with ⟨_ | y, env''⟩
      · rfl
      · exact (unbound_binary op x y).symm

/-! ## Lookups of a run that find nothing

From expressions to statements, by the steps of execution. -/

section Sequences

variable {α β σ : Type} {r : Except Halt α × σ}
  {g : α → σ → Except Halt β × σ}

/-- **One step after another** has the errors of the first, and those of the
second if the first succeeds. -/
theorem faults_append_behind {ks : List Lookup} {f : α → σ → List Lookup}
    (hk : faults ks = unbound r.1)
    (hf : ∀ a s, faults (f a s) = unbound (g a s).1) :
    faults (ks ++ Lookup.behind r f) = unbound (andThen r g).1 := by
  rw [faults_append, hk]
  match r with
  | (.ok a, s) => exact hf a s
  | (.error h, s) => exact List.append_nil _

theorem unbound_andThen (hg : ∀ a s, unbound (g a s).1 = []) :
    unbound (andThen r g).1 = unbound r.1 := by
  match r with
  | (.ok a, s) => exact hg a s
  | (.error h, s) => rfl

end Sequences

/-- On a machine, expressions are evaluated in its environment. -/
theorem faults_eval (m : Machine) (e : Expr) :
    faults (e.lookups m.env) = unbound (m.eval e).1 :=
  e.faults_lookups m.env

theorem faults_holds (m : Machine) (c : Expr) :
    faults (c.lookups m.env) = unbound (m.holds c).1 := by
  rw [faults_eval, Machine.holds_eq]
  exact (unbound_andThen fun _ _ => rfl).symm

/-- A loop has the errors of its rounds, if its test and its body have. -/
theorem faults_loopLookups {test : Machine → Except Halt Bool × Machine}
    {body : Machine → Except Halt Unit × Machine}
    {testLookups bodyLookups : Machine → List Lookup}
    (htest : ∀ m, faults (testLookups m) = unbound (test m).1)
    (hbody : ∀ m, faults (bodyLookups m) = unbound (body m).1) (n : Nat)
    (m : Machine) :
    faults (loopLookups test body testLookups bodyLookups n m)
      = unbound (whileLoop test body n m).1 := by
  -- A loop that is cut off has no undefined variable, and no lookups behind its
  -- bound.
  induction n generalizing m with
  | zero => rfl
  | succ n ih =>
    rw [loopLookups, whileLoop_succ]
    refine faults_append_behind (htest m) fun goesOn m => ?_
    cases goesOn with
    | false => rfl
    | true => exact faults_append_behind (hbody m) fun _ m => ih m

namespace Stmt

/-- The step for lists of statements. The number of the first one enters the
places only. -/
theorem faults_lookupsAll_of_forall {rounds : Nat} {body : List Stmt}
    (h : ∀ s ∈ body, ∀ m,
      faults (lookups rounds s m) = unbound (exec rounds s m).1)
    (i : Nat) (m : Machine) :
    faults (lookupsAll rounds body i m) = unbound (execAll rounds body m).1 := by
  induction body generalizing i m with
  | nil =>
    rw [lookupsAll, execAll_nil]
    rfl
  | cons s ss ih =>
    obtain ⟨hs, hss⟩ := List.forall_mem_cons.1 h
    rw [lookupsAll, execAll_cons]
    refine faults_append_behind ?_ fun _ m => ih hss (i + 1) m
    rw [faults_within, hs]

/-- **A statement fails at an undefined variable exactly if a lookup of it
finds nothing.** -/
theorem faults_lookups (rounds : Nat) (s : Stmt) (m : Machine) :
    faults (lookups rounds s m) = unbound (exec rounds s m).1 := by
  induction s generalizing m with
  | block span body ih =>
    rw [lookups, exec_block]
    exact faults_lookupsAll_of_forall ih 0 m.enter
  | expression span e =>
    rw [lookups, exec_expression, faults_within, faults_eval]
    exact (unbound_andThen fun _ _ => rfl).symm
  | branch span c t e iht ihe =>
    rw [lookups, exec_branch]
    refine faults_append_behind ?_ fun holds m => ?_
    · rw [faults_within, faults_holds]
    · cases holds with
      | true => rw [if_pos rfl, if_pos rfl, faults_within, iht]
      | false =>
        cases e with
        | none => rfl
        | some s => exact (faults_within _ _).trans (ihe s rfl m)
  | print span e =>
    rw [lookups, exec_print, faults_within, faults_eval]
    exact (unbound_andThen fun _ _ => rfl).symm
  | define span name e =>
    cases e with
    | none =>
      rw [lookups, exec_define]
      rfl
    | some e =>
      rw [lookups, exec_define, faults_within, faults_eval]
      exact (unbound_andThen fun _ _ => rfl).symm
  | loop span c body ih =>
    rw [lookups, exec_loop]
    refine faults_loopLookups (fun m => ?_) (fun m => ?_) rounds m
    · rw [faults_within, faults_holds]
    · rw [faults_within, ih]

/-- **A run ends at an undefined variable exactly if one of its lookups finds
nothing**: at most one of them does, and it is that variable. Nothing is assumed
of the statements or of the state, so this ties the list of lookups to every run
there is. -/
theorem faults_lookupsAll (rounds : Nat) (body : List Stmt) (i : Nat)
    (m : Machine) :
    faults (lookupsAll rounds body i m) = unbound (execAll rounds body m).1 :=
  faults_lookupsAll_of_forall (fun s _ => faults_lookups rounds s) i m

end Stmt

end TreeScript
