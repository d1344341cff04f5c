import TreeScript.Env.Frame

/-!
# Forests of scopes

Scopes that enclose each other need not form a single stack: several scopes may
lie in the same outer scope, and all of them see what is assigned to its
names. A forest holds any number of scopes, by number, each with the scopes
around it.
-/

namespace TreeScript

/-- **A scope**: its own names, and the scopes around it. -/
structure Scope where
  /-- The names defined in the scope itself. -/
  frame : Frame := {}
  /-- The numbers of the scopes around it, from the nearest outwards. -/
  outward : List Nat := []
deriving Repr, Inhabited

/-- The scope without names and with nothing around it. -/
def Scope.empty : Scope := ⟨.empty, []⟩

/-- **Scopes by number**, which share the scopes around them. -/
structure Forest where
  /-- The scopes; a scope's number is its index. -/
  scopes : List Scope := []
deriving Repr, Inhabited

namespace Forest

/-- The forest of one scope, numbered `0`. -/
def single : Forest := ⟨[.empty]⟩

/-- How many scopes there are. This is also the number of the next one. -/
def size (f : Forest) : Nat := f.scopes.length

/-- The names of a scope. A scope that does not exist has none. -/
def frame (f : Forest) (i : Nat) : Frame :=
  ((f.scopes[i]?).map Scope.frame).getD .empty

/-- A scope and the scopes around it, from the inside out. -/
def chain (f : Forest) (i : Nat) : List Nat :=
  match f.scopes[i]? with
  | some s => i :: s.outward
  | none => []

/-- Adds a scope with nothing around it. -/
def root (f : Forest) : Forest := ⟨f.scopes ++ [.empty]⟩

/-- Adds a scope inside another one. -/
def child (f : Forest) (i : Nat) : Forest :=
  ⟨f.scopes ++ [⟨.empty, f.chain i⟩]⟩

/-- Defines a name in a scope. -/
def define (f : Forest) (i : Nat) (name : String) (v : Value) : Forest :=
  ⟨f.scopes.modify i fun s => { s with frame := s.frame.define name v }⟩

/-- **The value of a name** seen from a scope: that of its nearest
definition. -/
def find? (f : Forest) (i : Nat) (name : String) : Option Value :=
  (f.chain i).findSome? fun j => (f.frame j).find? name

/-- Assigns to the first of the given scopes that defines a name. -/
def overwriteAlong (f : Forest) (name : String) (v : Value) :
    List Nat → Option Forest
  | [] => none
  | j :: js =>
    if (f.frame j).defines name then some (f.define j name v)
    else f.overwriteAlong name v js

/-- **Assigns to a name** seen from a scope: its nearest definition gets a new
value. A name without definition cannot be assigned to. -/
def overwrite? (f : Forest) (i : Nat) (name : String) (v : Value) :
    Option Forest :=
  f.overwriteAlong name v (f.chain i)

end Forest

end TreeScript
