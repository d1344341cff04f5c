import TreeScript.Env.Frame

/-!
# Environments

While a script runs, its names live in a stack of frames: one for each block
that is being executed, innermost first, and the global frame below them. A name
means its innermost definition.
-/

namespace TreeScript

/-- **The scopes in force** while a script runs. -/
structure Env where
  /-- The frames of the blocks being executed, innermost first. -/
  blocks : List Frame := []
  /-- The frame outside all blocks. -/
  globals : Frame := {}
deriving Repr, Inhabited

/-- Gives a new value to the innermost definition of a name in a stack of
frames. There may be none. -/
def overwriteFrames (name : String) (v : Value) :
    List Frame → Option (List Frame)
  | [] => none
  | f :: fs =>
    if f.defines name then some (f.define name v :: fs)
    else (overwriteFrames name v fs).map (f :: ·)

namespace Env

/-- All frames, innermost first. -/
def frames (env : Env) : List Frame := env.blocks ++ [env.globals]

/-- **The value of a name**: that of its innermost definition. -/
def find? (env : Env) (name : String) : Option Value :=
  (env.blocks.findSome? (·.find? name)).or (env.globals.find? name)

/-- The value of a name in the global frame. -/
def global? (env : Env) (name : String) : Option Value :=
  env.globals.find? name

/-- **Defines a name** in the innermost frame. -/
def define (env : Env) (name : String) (v : Value) : Env :=
  match env.blocks with
  | [] => { env with globals := env.globals.define name v }
  | f :: fs => { env with blocks := f.define name v :: fs }

/-- **Assigns to a name**: its innermost definition gets a new value. A name
without definition cannot be assigned to. -/
def overwrite? (env : Env) (name : String) (v : Value) : Option Env :=
  match overwriteFrames name v env.blocks with
  | some fs => some { env with blocks := fs }
  | none =>
    if env.globals.defines name then
      some { env with globals := env.globals.define name v }
    else none

/-- Enters a block: a frame without names goes on top. -/
def enter (env : Env) : Env := { env with blocks := .empty :: env.blocks }

/-- Leaves a block: the innermost frame is dropped. -/
def leave (env : Env) : Env := { env with blocks := env.blocks.tail }

@[simp] theorem leave_enter (env : Env) : env.enter.leave = env := rfl

/-- A block that has just been entered hides no name. -/
@[simp] theorem find?_enter (env : Env) (name : String) :
    env.enter.find? name = env.find? name := by
  simp [find?, enter, List.findSome?_cons]

/-- A definition is found under its name, and changes no other name. -/
theorem find?_define (env : Env) (name other : String) (v : Value) :
    (env.define name v).find? other
      = if other = name then some v else env.find? other := by
  unfold define find?
  split <;> rename_i h
  · simp only [h, List.findSome?_nil, Option.none_or, Frame.find?_define]
  · simp only [h, List.findSome?_cons, Frame.find?_define]
    by_cases hn : other = name <;> simp [hn]

theorem isSome_overwriteFrames (name : String) (v : Value) (fs : List Frame) :
    (overwriteFrames name v fs).isSome
      = (fs.findSome? (·.find? name)).isSome := by
  induction fs with
  | nil => rfl
  | cons f fs ih =>
    by_cases h : f.defines name
    · obtain ⟨w, hw⟩ := Frame.defines_iff.1 h
      simp [overwriteFrames, h, hw]
    · have hn := Frame.not_defines_iff.1 h
      simp [overwriteFrames, h, hn, ih]

/-- A name can be assigned to exactly if it has a value. -/
theorem isSome_overwrite? (env : Env) (name : String) (v : Value) :
    (env.overwrite? name v).isSome = (env.find? name).isSome := by
  have h := isSome_overwriteFrames name v env.blocks
  cases ho : overwriteFrames name v env.blocks with
  | some fs =>
    rw [ho] at h
    simp [overwrite?, find?, ho, Option.isSome_or, ← h]
  | none =>
    rw [ho] at h
    by_cases hg : env.globals.defines name
    · obtain ⟨w, hw⟩ := Frame.defines_iff.1 hg
      simp [overwrite?, find?, ho, hg, hw]
    · have hn := Frame.not_defines_iff.1 hg
      simp [overwrite?, find?, ho, hg, hn, ← h]

end Env

end TreeScript
