import TreeScript.Env.Forest

/-!
# Scopes that share what lies around them

In a forest, several scopes may lie in the same outer scope. An assignment through
one of them is then seen from all others, unless a scope in between defines the
name itself.

The walk outwards goes from a scope to the scope around it (`Forest.parent?`). In a
forest that was built scope by scope it ends, since every scope lies in an older
one (`Forest.Layered`). A name belongs to the nearest scope on this walk that
defines it, its **owner** (`Forest.Owner`). Finding, assigning and defining are
told in terms of owners, for all forests that can be built (`scopes_shared`).

To be the owner is said by a walk (`Forest.Nearest`), as an inductive relation,
and not by a search. So the statements hold of any way to find it, and the
proofs follow the walk: at the scope where it ends, and one step outwards. What
the model does, going through a list of scopes that was stored when the scope
was added, is brought to the same steps (`Layered.find?_step`,
`Layered.overwrite?_step`).

The two ways to change a forest are then told apart by their first scope only. A
definition goes to the scope itself and an assignment to the owner, so that an
assignment is a definition somewhere (`Layered.perform_overwrite`), and both are
seen from the same kind of scopes.
-/

namespace TreeScript

namespace Forest

/-! ## Building forests

Scopes are numbered in the order they are added, and never go. An operation
names the scopes it is about by these numbers; what it does to a number that no
scope has is settled as well. -/

/-- The scope directly around a scope, if there is one. -/
def parent? (f : Forest) (i : Nat) : Option Nat :=
  (f.scopes[i]?).bind fun s => s.outward.head?

/-- **What can be done with a forest.** -/
inductive Op where
  /-- A scope with nothing around it is added. -/
  | root
  /-- A scope inside another one is added. -/
  | child (i : Nat)
  /-- A name is defined in a scope. -/
  | define (i : Nat) (name : String) (v : Value)
  /-- A name that is seen from a scope is assigned to. -/
  | overwrite (i : Nat) (name : String) (v : Value)

/-- The forest after an operation. An assignment that fails changes nothing. -/
def perform (f : Forest) : Op → Forest
  | .root => f.root
  | .child i => f.child i
  | .define i name v => f.define i name v
  | .overwrite i name v => (f.overwrite? i name v).getD f

/-- **The forests that can be built**, from one without scopes. -/
def grown (ops : List Op) : Forest := ops.foldl perform {}

/-- **The nearest scope with a property**, on the walk outwards from a scope.
The walk passes scopes without the property until it is at one that has it. -/
inductive Nearest (f : Forest) (p : Nat → Prop) : Nat → Nat → Prop
  | here {i : Nat} (hi : i < f.size) (h : p i) : Nearest f p i i
  | outside {i j o : Nat} (h : ¬ p i) (hj : f.parent? i = some j)
      (ho : Nearest f p j o) : Nearest f p i o

/-- **The scope that a name belongs to**, seen from the scope `i`: the nearest
one that defines it. There is at most one, and none if the name has no
definition on the way outwards. -/
def Owner (f : Forest) (i : Nat) (name : String) (o : Nat) : Prop :=
  f.Nearest (fun k => (f.frame k).defines name = true) i o

/-- On the walk outwards from `j`, the scope `i` comes before any other scope that
defines the name. -/
def Exposes (f : Forest) (j : Nat) (name : String) (i : Nat) : Prop :=
  f.Nearest (fun k => k = i ∨ (f.frame k).defines name = true) j i

namespace Nearest

variable {f : Forest} {p : Nat → Prop} {i o : Nat}

theorem holds (h : f.Nearest p i o) : p o := by
  induction h with
  | here _ h => exact h
  | outside _ _ _ ih => exact ih

theorem lt_size (h : f.Nearest p i o) : o < f.size := by
  induction h with
  | here hi _ => exact hi
  | outside _ _ _ ih => exact ih

end Nearest

/-! ## What operations leave alone

Framing, for the parts that a forest is asked for: how many scopes there are,
what each defines, and what lies around it. -/

section Define

variable (f : Forest) (i j : Nat) (name : String) (v : Value)

/-- A definition adds no scope. -/
@[simp] theorem size_define : (f.define i name v).size = f.size :=
  List.length_modify ..

/-- The one scope that a definition changes, in the list of all. -/
theorem getElem?_define :
    (f.define i name v).scopes[j]?
      = (f.scopes[j]?).map fun s =>
          if i = j then { s with frame := s.frame.define name v } else s :=
  List.getElem?_modify ..

/-- A definition changes the names of its own scope only. -/
theorem frame_define :
    (f.define i name v).frame j
      = if i = j ∧ j < f.size then (f.frame j).define name v else f.frame j := by
  unfold frame
  rw [getElem?_define]
  by_cases hj : j < f.scopes.length
  · rw [List.getElem?_eq_getElem hj]
    by_cases hij : i = j <;> simp [size, hij, hj]
  · rw [List.getElem?_eq_none (Nat.le_of_not_lt hj)]
    simp [size, hj]

/-- A definition changes no walk. -/
@[simp] theorem chain_define : (f.define i name v).chain j = f.chain j := by
  unfold chain
  rw [getElem?_define]
  cases f.scopes[j]? with
  | none => rfl
  | some s => by_cases hij : i = j <;> simp [hij]

@[simp] theorem parent?_define :
    (f.define i name v).parent? j = f.parent? j := by
  unfold parent?
  rw [getElem?_define]
  cases f.scopes[j]? with
  | none => rfl
  | some s => by_cases hij : i = j <;> simp [hij]

theorem lt_size_of_defines {f : Forest} {j : Nat} {name : String}
    (h : (f.frame j).defines name = true) : j < f.size := by
  refine Nat.lt_of_not_le fun hj => ?_
  have hnone : f.scopes[j]? = none := List.getElem?_eq_none hj
  simp [frame, hnone, Frame.defines] at h

theorem lt_size_of_parent? {f : Forest} {i j : Nat} (h : f.parent? i = some j) :
    i < f.size := by
  refine Nat.lt_of_not_le fun hi => ?_
  have hnone : f.scopes[i]? = none := List.getElem?_eq_none hi
  simp [parent?, hnone] at h

/-- A definition changes what is found under its own name only. -/
theorem find?_define_of_ne {name other : String} (v : Value)
    (hne : other ≠ name) :
    (f.define i name v).find? j other = f.find? j other := by
  unfold find?
  rw [chain_define]
  refine congrArg (List.findSome? · _) (funext fun k => ?_)
  rw [frame_define]
  split
  · exact Frame.find?_define_of_ne _ v hne
  · rfl

end Define

/-- An assignment is a definition somewhere, or nothing. -/
theorem overwrite_cases (f : Forest) (i : Nat) (name : String) (v : Value) :
    f.perform (.overwrite i name v) = f
      ∨ ∃ k, f.perform (.overwrite i name v) = f.define k name v := by
  have halong (js : List Nat) : (f.overwriteAlong name v js).getD f = f
      ∨ ∃ k, (f.overwriteAlong name v js).getD f = f.define k name v := by
    induction js with
    | nil => exact .inl rfl
    | cons k js ih =>
      unfold overwriteAlong
      split
      · exact .inr ⟨k, rfl⟩
      · exact ih
  exact halong (f.chain i)

/-! ## Owners and definitions

A definition adds its scope to those that define the name. It does not change
any walk, only where one ends. -/

section Owner

variable {f : Forest} {i j o : Nat} {name : String}

/-- With the definition, its scope is one of those that define the name. -/
theorem owner_define
    (ho : f.Nearest (fun k => k = i ∨ (f.frame k).defines name = true) j o)
    (v : Value) : (f.define i name v).Owner j name o := by
  have hdefines (k : Nat) (hk : k < f.size) :
      ((f.define i name v).frame k).defines name = true
        ↔ k = i ∨ (f.frame k).defines name = true := by
    rw [frame_define]
    by_cases hik : i = k
    · simp [hik, hk, Frame.defines]
    · simp [hik, Ne.symm hik]
  induction ho with
  | here hj hp => exact .here (by rwa [size_define]) ((hdefines _ hj).2 hp)
  | outside hp hj _ ih =>
    exact .outside (fun hdef => hp ((hdefines _ (lt_size_of_parent? hj)).1 hdef))
      ((parent?_define ..).trans hj) ih

/-- Seen from a scope, the owner of a name comes before all others that define
it. -/
theorem exposes_iff_owner (hi : f.Owner i name o) :
    f.Exposes j name o ↔ f.Owner j name o := by
  have hdef : (f.frame o).defines name = true := hi.holds
  have hp : (fun k => k = o ∨ (f.frame k).defines name = true)
      = fun k => (f.frame k).defines name = true :=
    funext fun k => propext ⟨fun hk => hk.elim (· ▸ hdef) id, .inr⟩
  unfold Exposes Owner
  rw [hp]

end Owner

/-! ## Added scopes

Adding a scope is putting it behind the others, with the walk it begins with. -/

/-- Adds a scope that defines nothing. It lies in no other scope if there is
nothing outward, and in the scope `i` if the chain of `i` is. -/
def push (f : Forest) (outward : List Nat) : Forest :=
  ⟨f.scopes ++ [⟨.empty, outward⟩]⟩

section Push

variable (f : Forest) (outward : List Nat)

theorem chain_push_of_lt {i : Nat} (hi : i < f.size) :
    (f.push outward).chain i = f.chain i := by
  unfold chain push
  rw [List.getElem?_append_left hi]

theorem parent?_push_of_lt {i : Nat} (hi : i < f.size) :
    (f.push outward).parent? i = f.parent? i := by
  unfold parent? push
  rw [List.getElem?_append_left hi]

theorem chain_push_size :
    (f.push outward).chain f.size = f.size :: outward := by
  simp [chain, push, size]

/-- Around it lies the first of the scopes that it was given. -/
theorem parent?_push_size :
    (f.push outward).parent? f.size = outward.head? := by
  simp [parent?, push, size]

end Push

/-- The scopes from a scope outwards begin with the scope itself. -/
theorem head?_chain {f : Forest} {i : Nat} (hi : i < f.size) :
    (f.chain i).head? = some i := by
  unfold chain
  rw [List.getElem?_eq_getElem hi]
  rfl

theorem chain_of_le {f : Forest} {i : Nat} (hi : f.size ≤ i) :
    f.chain i = [] := by
  unfold chain
  rw [List.getElem?_eq_none hi]

/-! ## The walk outwards

The stored walk of a scope is the scope itself and then the stored walk of the
scope around it. This is kept by every operation, and it is why the stored lists
may be forgotten from here on. -/

/-- **Every scope lies in an older one**, or in none, and the scopes around it are
those that the walk outwards meets. -/
structure Layered (f : Forest) : Prop where
  /-- The scope around a scope is older. -/
  parent_lt : ∀ {i j}, f.parent? i = some j → j < i
  /-- The walk goes on from the scope around. -/
  chain_eq : ∀ {i}, i < f.size →
    f.chain i = i :: ((f.parent? i).map f.chain).getD []

namespace Layered

variable {f : Forest}

/-- A definition leaves all walks as they are. -/
theorem define (h : f.Layered) (i : Nat) (name : String) (v : Value) :
    (f.define i name v).Layered where
  parent_lt hj := h.parent_lt ((parent?_define ..).symm.trans hj)
  chain_eq {j} hj := by
    have hchain : (f.define i name v).chain = f.chain :=
      funext fun k => chain_define ..
    rw [parent?_define, hchain]
    exact h.chain_eq (size_define f i name v ▸ hj)

/-- A scope may be added around which there is nothing, or the scopes from some
scope outwards. -/
theorem push (h : f.Layered) (i : Nat) : (f.push (f.chain i)).Layered := by
  have hparent : (f.push (f.chain i)).parent? f.size
      = if i < f.size then some i else none := by
    rw [parent?_push_size]
    split
    · rename_i hi
      exact head?_chain hi
    · rename_i hi
      rw [chain_of_le (Nat.le_of_not_lt hi)]
      rfl
  have hsize : (f.push (f.chain i)).size = f.size + 1 := by
    simp [Forest.push, size]
  constructor
  · intro k j hj
    have hk := lt_size_of_parent? hj
    by_cases hlt : k < f.size
    · exact h.parent_lt ((parent?_push_of_lt f _ hlt).symm.trans hj)
    · -- The scope that was added: the one around it, if any, was there before.
      obtain rfl : k = f.size := by omega
      rw [hparent] at hj
      split at hj <;> cases hj
      assumption
  · intro k hk
    by_cases hlt : k < f.size
    · rw [chain_push_of_lt f _ hlt, parent?_push_of_lt f _ hlt, h.chain_eq hlt]
      cases hj : f.parent? k with
      | none => rfl
      | some j =>
        have hj : j < f.size := Nat.lt_trans (h.parent_lt hj) hlt
        simp [chain_push_of_lt f _ hj]
    · obtain rfl : k = f.size := by omega
      rw [chain_push_size, hparent]
      split
      · rename_i hi
        simp [chain_push_of_lt f _ hi]
      · rename_i hi
        simp [chain_of_le (Nat.le_of_not_lt hi)]

theorem empty : ({} : Forest).Layered where
  parent_lt h := by cases h
  chain_eq h := by cases h

/-- **What every operation keeps.** An assignment is a definition somewhere or
does nothing, so that three cases are left: two that add a scope and one that
changes a frame. -/
theorem perform (h : f.Layered) (op : Op) : (f.perform op).Layered := by
  cases op with
  | root =>
    have hchain : f.chain f.size = [] := chain_of_le (Nat.le_refl _)
    have hpush := h.push f.size
    rwa [hchain] at hpush
  | child i => exact h.push i
  | define i name v => exact h.define i name v
  | overwrite i name v =>
    rcases f.overwrite_cases i name v with heq | ⟨k, heq⟩
    · rwa [heq]
    · rw [heq]
      exact h.define k name v

/-- **All forests that can be built are layered.** This is the only place where
it matters how a forest came about. -/
theorem grown (ops : List Op) : (Forest.grown ops).Layered := by
  have hfoldl : ∀ f : Forest, f.Layered → (ops.foldl Forest.perform f).Layered := by
    induction ops with
    | nil => exact fun _ h => h
    | cons op ops ih => exact fun f h => ih _ (h.perform op)
  exact hfoldl {} empty

/-! ## One step of the walk

The recursion from the scope around, as one would write it. -/

variable {i j o : Nat} {name : String}

/-- A name means what its own scope says, and else what it means one step
outwards. -/
theorem find?_step (h : f.Layered) (i : Nat) (name : String) :
    f.find? i name
      = ((f.frame i).find? name).or
          ((f.parent? i).bind fun j => f.find? j name) := by
  by_cases hi : i < f.size
  · unfold find?
    rw [h.chain_eq hi, List.findSome?_cons]
    cases (f.frame i).find? name with
    | some w => rfl
    | none => cases f.parent? i <;> rfl
  · have hnone : f.scopes[i]? = none :=
      List.getElem?_eq_none (Nat.le_of_not_lt hi)
    simp [find?, chain, frame, parent?, hnone]

/-- An assignment changes its own scope if that defines the name, and else goes
one step outwards. -/
theorem overwrite?_step (h : f.Layered) (i : Nat) (name : String) (v : Value) :
    f.overwrite? i name v
      = if (f.frame i).defines name then some (f.define i name v)
        else (f.parent? i).bind fun j => f.overwrite? j name v := by
  by_cases hi : i < f.size
  · unfold overwrite?
    rw [h.chain_eq hi, Forest.overwriteAlong]
    cases f.parent? i <;> rfl
  · have hnone : f.scopes[i]? = none :=
      List.getElem?_eq_none (Nat.le_of_not_lt hi)
    simp [overwrite?, chain, frame, parent?, hnone, Frame.defines,
      Forest.overwriteAlong]

/-! ## Owners

Following the walk to the owner; and if there is none, until it ends. -/

/-- **A name means what its owner says.** By induction on the walk to the owner:
the scopes that are passed have nothing to say about the name. -/
theorem find?_of_owner (h : f.Layered) (ho : f.Owner i name o) :
    f.find? i name = (f.frame o).find? name := by
  induction ho with
  | here _ hdef =>
    obtain ⟨w, hw⟩ := Frame.defines_iff.1 hdef
    rw [h.find?_step, hw, Option.some_or]
  | outside hdef hj _ ih =>
    rw [h.find?_step, Frame.not_defines_iff.1 hdef, hj, Option.none_or]
    exact ih

/-- **An assignment changes the scope that the name belongs to.** -/
theorem overwrite?_of_owner (h : f.Layered) (ho : f.Owner i name o)
    (v : Value) : f.overwrite? i name v = some (f.define o name v) := by
  induction ho with
  | here _ hdef => rw [h.overwrite?_step, if_pos hdef]
  | outside hdef hj _ ih =>
    rw [h.overwrite?_step, if_neg hdef, hj]
    exact ih

/-- A name without owner means nothing and cannot be assigned to. The walk ends
since it meets older and older scopes. -/
theorem eq_none_of_no_owner (h : f.Layered) (hno : ¬ ∃ o, f.Owner i name o)
    (v : Value) : f.find? i name = none ∧ f.overwrite? i name v = none := by
  -- The walk meets older and older scopes, so the induction is on the age.
  induction i using Nat.strongRecOn with
  | _ i ih =>
    have hdef : ¬ (f.frame i).defines name := fun hdef =>
      hno ⟨i, .here (lt_size_of_defines hdef) hdef⟩
    rw [h.find?_step, h.overwrite?_step, Frame.not_defines_iff.1 hdef,
      if_neg hdef, Option.none_or]
    cases hj : f.parent? i with
    | none => exact ⟨rfl, rfl⟩
    | some j =>
      exact ih j (h.parent_lt hj) fun ⟨o, ho⟩ => hno ⟨o, .outside hdef hj ho⟩

/-- The owner has a value for its name, and that is the one which is found. -/
theorem exists_find?_of_owner (h : f.Layered) (ho : f.Owner i name o) :
    ∃ w, (f.frame o).find? name = some w ∧ f.find? i name = some w := by
  obtain ⟨w, hw⟩ := Frame.defines_iff.1 ho.holds
  exact ⟨w, hw, (h.find?_of_owner ho).trans hw⟩

/-- A name can be assigned to exactly if it means something. -/
theorem isSome_overwrite?_iff (h : f.Layered) (i : Nat) (name : String)
    (v : Value) : (f.overwrite? i name v).isSome ↔ (f.find? i name).isSome := by
  by_cases ho : ∃ o, f.Owner i name o
  · obtain ⟨o, ho⟩ := ho
    obtain ⟨w, -, hw⟩ := h.exists_find?_of_owner ho
    rw [h.overwrite?_of_owner ho, hw, Option.isSome_some, Option.isSome_some]
  · obtain ⟨hnone, hfails⟩ := h.eq_none_of_no_owner ho v
    rw [hnone, hfails]
    exact Iff.rfl

/-- An assignment that succeeds has found an owner. -/
theorem exists_owner_of_isSome (h : f.Layered) {v : Value}
    (hsome : (f.overwrite? i name v).isSome) : ∃ o, f.Owner i name o := by
  refine Classical.byContradiction fun hno => ?_
  rw [(h.eq_none_of_no_owner hno v).2] at hsome
  cases hsome

/-! ## Definitions

What a definition changes is seen from the scopes that come to it first. -/

/-- **A definition is found** from where its scope comes first. The definition
makes its scope the owner from there, and its frame has the new value. -/
theorem find?_define_of_exposes (h : f.Layered) (hj : f.Exposes j name i)
    (v : Value) : (f.define i name v).find? j name = some v := by
  rw [(h.define ..).find?_of_owner (owner_define hj v), frame_define,
    if_pos ⟨rfl, hj.lt_size⟩, Frame.find?_define_self]

/-- A definition is not found from elsewhere. -/
theorem find?_define_of_not_exposes (h : f.Layered)
    (hj : ¬ f.Exposes j name i) (v : Value) :
    (f.define i name v).find? j name = f.find? j name := by
  induction j using Nat.strongRecOn with
  | _ j ih =>
    have hframe : (f.define i name v).frame j = f.frame j := by
      rw [frame_define, if_neg]
      rintro ⟨rfl, hi⟩
      exact hj (.here hi (.inl rfl))
    rw [(h.define ..).find?_step, h.find?_step, hframe, parent?_define]
    by_cases hdef : (f.frame j).defines name
    · obtain ⟨w, hw⟩ := Frame.defines_iff.1 hdef
      rw [hw, Option.some_or, Option.some_or]
    · cases hk : f.parent? j with
      | none => rfl
      | some k =>
        have hji : j ≠ i := by
          rintro rfl
          exact hj (.here (lt_size_of_parent? hk) (.inl rfl))
        have hrest := ih k (h.parent_lt hk) fun he =>
          hj (.outside (not_or.2 ⟨hji, hdef⟩) hk he)
        exact congrArg _ hrest

/-- **All else is as before** a definition. For another name nothing has changed
in any frame; for the same name the walk ends in front of the definition, or
never meets it. -/
theorem find?_define_eq (h : f.Layered) {other : String}
    (hj : ¬ (other = name ∧ f.Exposes j name i)) (v : Value) :
    (f.define i name v).find? j other = f.find? j other := by
  by_cases hother : other = name
  · subst hother
    exact h.find?_define_of_not_exposes (fun he => hj ⟨rfl, he⟩) v
  · exact find?_define_of_ne f i j v hother

/-! ## Assignments

An assignment is the definition in the owner, so all of this carries over. -/

/-- An assignment is a definition in the scope that the name belongs to. -/
theorem perform_overwrite (h : f.Layered) (ho : f.Owner i name o) (v : Value) :
    f.perform (.overwrite i name v) = f.define o name v := by
  show (f.overwrite? i name v).getD f = _
  rw [h.overwrite?_of_owner ho, Option.getD_some]

/-- **An assignment is seen from all scopes with the same owner.** The scopes
that see the new value are those that shared the old one. -/
theorem find?_perform_of_owner (h : f.Layered) (ho : f.Owner i name o)
    (hj : f.Owner j name o) (v : Value) :
    (f.perform (.overwrite i name v)).find? j name = some v := by
  rw [h.perform_overwrite ho]
  exact h.find?_define_of_exposes ((exposes_iff_owner ho).2 hj) v

/-- **All else is as before** an assignment. In particular a scope that defines
the name itself, further inside, keeps its own value. -/
theorem find?_perform_eq (h : f.Layered) (ho : f.Owner i name o) {other : String}
    (hj : ¬ (other = name ∧ f.Owner j name o)) (v : Value) :
    (f.perform (.overwrite i name v)).find? j other = f.find? j other := by
  rw [h.perform_overwrite ho]
  exact h.find?_define_eq
    (fun ⟨hother, he⟩ => hj ⟨hother, (exposes_iff_owner ho).1 he⟩) v

end Layered

/-- Operations keep the scopes around a scope. -/
theorem parent?_perform {f : Forest} (op : Op) {j : Nat} (hj : j < f.size) :
    (f.perform op).parent? j = f.parent? j := by
  cases op with
  | root => exact parent?_push_of_lt f [] hj
  | child i => exact parent?_push_of_lt f (f.chain i) hj
  | define i name v => exact parent?_define f i j name v
  | overwrite i name v =>
    rcases f.overwrite_cases i name v with heq | ⟨k, heq⟩
    · rw [heq]
    · rw [heq, parent?_define]

end Forest

open Forest in
/-- **Scopes are nested maps that share the maps around them.** In every forest
that can be built: a name means what its owner says, and nothing if it has no
owner. It can be assigned to exactly if it means something. An assignment changes
what the name means from all scopes with the same owner and nothing else, and
nothing at all if it fails. A definition changes what the name means from all
scopes from which its scope comes before any other that defines the name, and
nothing else. A scope that is added inside another one lies there for good. -/
theorem scopes_shared (ops : List Op) (i : Nat) (name : String) (v : Value) :
    let f := grown ops
    let assigned := f.perform (.overwrite i name v)
    let defined := f.perform (.define i name v)
    (∀ o, f.Owner i name o →
        ∃ w, (f.frame o).find? name = some w ∧ f.find? i name = some w)
      ∧ ((¬ ∃ o, f.Owner i name o) → f.find? i name = none)
      ∧ ((f.overwrite? i name v).isSome ↔ (f.find? i name).isSome)
      ∧ ((f.overwrite? i name v).isSome →
          (∀ j, (∃ o, f.Owner i name o ∧ f.Owner j name o) →
            assigned.find? j name = some v)
          ∧ ∀ j other,
            ¬ (other = name ∧ ∃ o, f.Owner i name o ∧ f.Owner j name o) →
              assigned.find? j other = f.find? j other)
      ∧ (f.overwrite? i name v = none →
          ∀ j other, assigned.find? j other = f.find? j other)
      ∧ (∀ j, f.Exposes j name i → defined.find? j name = some v)
      ∧ (∀ j other, ¬ (other = name ∧ f.Exposes j name i) →
          defined.find? j other = f.find? j other)
      ∧ (i < f.size → (f.perform (.child i)).parent? f.size = some i)
      ∧ ∀ op j, j < f.size → (f.perform op).parent? j = f.parent? j := by
  intro f assigned defined
  have h : f.Layered := .grown ops
  refine ⟨fun o => h.exists_find?_of_owner,
    fun hno => (h.eq_none_of_no_owner hno v).1, h.isSome_overwrite?_iff i name v,
    fun hsome => ⟨fun j ⟨o, ho, hj⟩ => h.find?_perform_of_owner ho hj v,
      fun j other hj => ?_⟩, fun hnone j other => ?_,
    fun j hj => h.find?_define_of_exposes hj v,
    fun j other hj => h.find?_define_eq hj v, fun hi => ?_,
    fun op j => parent?_perform op⟩
  · obtain ⟨o, ho⟩ := h.exists_owner_of_isSome hsome
    exact h.find?_perform_eq ho (fun ⟨hother, hj'⟩ => hj ⟨hother, o, ho, hj'⟩) v
  · show ((f.overwrite? i name v).getD f).find? j other = _
    rw [hnone, Option.getD_none]
  · show (f.push (f.chain i)).parent? f.size = some i
    rw [parent?_push_size]
    exact head?_chain hi

-- An assignment through one scope is seen from the one beside it, but not from the
-- one that defines the name itself.
example :
    let f := Forest.grown [.root, .child 0, .child 0, .child 0,
      .define 0 "x" .nil, .define 3 "x" .nil]
    let g := f.perform (.overwrite 1 "x" (.text "new"))
    g.find? 2 "x" = some (.text "new") ∧ g.find? 3 "x" = some .nil :=
  ⟨rfl, rfl⟩

end TreeScript
