import TreeScript.Value

/-!
# Frames

A frame holds the names defined in one scope and their values. Its view is
`Frame.find?`: defining a name changes what is found under this name and
nothing else.
-/

namespace TreeScript

/-- **The names of one scope**, each with its value. -/
structure Frame where
  /-- The names and values, in the order of their first definition. -/
  entries : List (String × Value) := []
deriving Repr, Inhabited

namespace Frame

/-- The frame without names. -/
def empty : Frame := ⟨[]⟩

/-- The value of a name. -/
def find? (f : Frame) (name : String) : Option Value :=
  f.entries.lookup name

/-- Whether a name is defined. -/
def defines (f : Frame) (name : String) : Bool := (f.find? name).isSome

theorem defines_iff {f : Frame} {name : String} :
    f.defines name ↔ ∃ v, f.find? name = some v :=
  Option.isSome_iff_exists

theorem not_defines_iff {f : Frame} {name : String} :
    ¬ f.defines name ↔ f.find? name = none := by
  simp [defines]

/-- Gives a name its value in a list of entries. -/
def setEntry (name : String) (v : Value) :
    List (String × Value) → List (String × Value)
  | [] => [(name, v)]
  | (k, w) :: es =>
    if k = name then (name, v) :: es else (k, w) :: setEntry name v es

/-- **Defines a name.** A name that is already there gets the new value. -/
def define (f : Frame) (name : String) (v : Value) : Frame :=
  ⟨setEntry name v f.entries⟩

@[simp] theorem find?_empty (name : String) : empty.find? name = none := rfl

theorem lookup_cons_of_ne {name other : String} (h : other ≠ name) (v : Value)
    (es : List (String × Value)) :
    ((name, v) :: es).lookup other = es.lookup other := by
  simp [List.lookup_cons, beq_eq_false_iff_ne.2 h]

theorem lookup_setEntry (name other : String) (v : Value)
    (es : List (String × Value)) :
    (setEntry name v es).lookup other
      = if other = name then some v else es.lookup other := by
  induction es with
  | nil =>
    by_cases h : other = name
    · simp [setEntry, h]
    · simp [setEntry, h, lookup_cons_of_ne h]
  | cons e es ih =>
    obtain ⟨k, w⟩ := e
    by_cases hk : k = name
    · subst hk
      by_cases h : other = k
      · simp [setEntry, h]
      · simp [setEntry, h, lookup_cons_of_ne h]
    · by_cases h : other = k
      · subst h
        simp [setEntry, hk]
      · simp [setEntry, hk, lookup_cons_of_ne h, ih]

/-- A definition is found under its name, and changes no other name. -/
theorem find?_define (f : Frame) (name other : String) (v : Value) :
    (f.define name v).find? other
      = if other = name then some v else f.find? other :=
  lookup_setEntry name other v f.entries

@[simp] theorem find?_define_self (f : Frame) (name : String) (v : Value) :
    (f.define name v).find? name = some v := by
  simp [find?_define]

theorem find?_define_of_ne (f : Frame) {name other : String} (v : Value)
    (h : other ≠ name) : (f.define name v).find? other = f.find? other := by
  simp [find?_define, h]

end Frame

end TreeScript
