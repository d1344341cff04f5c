import TreeScript.Parser.Basic

/-!
# Reading without a fault

`p.Reads z ts a us` says that the parser `p`, given the tokens `ts` in front of
the end-of-file token `z`, answers `a`, records no fault and leaves `us`. This
is all that the grammar is about: a run that recovers from a fault is not a
reading.

Each parser has one lemma that says what it reads, and that of a sequence of
parsers splits it into its parts (`Parser.reads_bind`). With these lemmas a
parser is taken apart without ever being unfolded.

Reading is an equation and not an implication: the lemmas are equivalences, so
they serve both to see that a phrase is read and to see that what was read is a
phrase. The end-of-file token is an argument of its own because it is never
taken, only looked at, and what is read does not depend on it as long as no
fault is met.
-/

namespace TreeScript.Parser

variable {α β : Type} {z : Token} {ts us : List Token}

/-- **`p` reads `a` from the front of `ts`** and leaves `us`, without a fault.
Whatever stands behind `ts` is part of the statement, as a parser may have to
look at it. -/
def Reads (p : Parser α) (z : Token) (ts : List Token) (a : α)
    (us : List Token) : Prop :=
  p.run ⟨ts, z⟩ = ⟨.ok a, [], ⟨us, z⟩⟩

/-- Going on from an answer gives a clean answer exactly if the answer was clean
and what came next was. -/
theorem andThen_eq_iff (p : Parser α) (f : α → TokenStream → Reply β) {b : β} :
    (p.run ⟨ts, z⟩).andThen f = ⟨.ok b, [], ⟨us, z⟩⟩
      ↔ ∃ a vs, p.Reads z ts a vs ∧ f a ⟨vs, z⟩ = ⟨.ok b, [], ⟨us, z⟩⟩ := by
  have hz := (p.rest_suffix ⟨ts, z⟩).2
  unfold Reply.andThen Reads
  cases hr : p.run ⟨ts, z⟩ with
  | mk outcome recorded rest =>
    obtain ⟨vs, y⟩ := rest
    obtain rfl : y = z := by rw [hr] at hz; exact hz
    cases outcome with
    | error e => simp
    | ok a =>
      constructor
      · intro h
        obtain ⟨ho, hrec, hrest⟩ := Reply.mk.inj h
        obtain ⟨rfl, hrec⟩ := List.append_eq_nil_iff.1 hrec
        refine ⟨a, vs, rfl, ?_⟩
        rw [← ho, ← hrec, ← hrest]
      · rintro ⟨a', vs', heq, hf⟩
        obtain ⟨ho, rfl, hvs⟩ := Reply.mk.inj heq
        obtain rfl := Except.ok.inj ho
        obtain rfl := (TokenStream.mk.inj hvs).1
        dsimp only
        rw [hf]
        rfl

/-- An answer that is given without looking at the tokens leaves them all. -/
@[simp] theorem reads_pure {a b : α} :
    (pure a : Parser α).Reads z ts b us ↔ b = a ∧ us = ts := by
  show (⟨.ok a, [], ⟨ts, z⟩⟩ : Reply α) = ⟨.ok b, [], ⟨us, z⟩⟩ ↔ _
  simp [eq_comm]

/-- A parser that fails reads nothing, whatever it is given. -/
@[simp] theorem reads_fail {e : ParseError} {a : α} :
    ¬ (fail e : Parser α).Reads z ts a us :=
  nofun

@[simp] theorem reads_failHere {f : Token → ParseError} {a : α} :
    ¬ (failHere f : Parser α).Reads z ts a us :=
  nofun

/-- Looking at the next token takes nothing. At the end this is the end-of-file
token. -/
@[simp] theorem reads_here {t : Token} :
    here.Reads z ts t us ↔ t = ts.headD z ∧ us = ts := by
  show (⟨.ok (ts.headD z), [], ⟨ts, z⟩⟩ : Reply Token)
    = ⟨.ok t, [], ⟨us, z⟩⟩ ↔ _
  simp [eq_comm]

/-- The end-of-file token counts as no punctuator. -/
@[simp] theorem reads_nextIs {m : Punctuator} {b : Bool} :
    (nextIs m).Reads z ts b us
      ↔ b = (ts.head?.map Token.kind == some (.punctuator m)) ∧ us = ts := by
  show (⟨.ok (ts.head?.map Token.kind == some (.punctuator m)), [], ⟨ts, z⟩⟩
    : Reply Bool) = ⟨.ok b, [], ⟨us, z⟩⟩ ↔ _
  simp [eq_comm]

/-- A parser reads at most one value, and leaves what it leaves. -/
theorem Reads.unique {p : Parser α} {a b : α} {vs : List Token}
    (h : p.Reads z ts a us) (k : p.Reads z ts b vs) : b = a ∧ vs = us := by
  obtain ⟨ho, -, hr⟩ := Reply.mk.inj (Eq.trans (Eq.symm k) h)
  exact ⟨Except.ok.inj ho, (TokenStream.mk.inj hr).1⟩

/-- **A sequence reads what its parts read**, one behind the other. The tokens
in between are determined by the first part (`Reads.unique`), so this splits a
reading into two readings and joins them again. -/
theorem reads_bind {p : Parser α} {f : α → Parser β} {b : β} :
    (p >>= f).Reads z ts b us
      ↔ ∃ a vs, p.Reads z ts a vs ∧ (f a).Reads z vs b us :=
  p.andThen_eq_iff (fun a t => (f a).run t)

theorem reads_onNext_nil {f : Token → Option (Parser α)} {q : Parser α}
    {a : α} : (onNext f q).Reads z [] a us ↔ q.Reads z [] a us :=
  Iff.rfl

theorem reads_onNext_some {f : Token → Option (Parser α)} {q p : Parser α}
    {a : α} {t : Token} (h : f t = some p) :
    (onNext f q).Reads z (t :: ts) a us ↔ p.Reads z ts a us := by
  unfold Reads onNext
  simp only [List.head?_cons, Option.bind_some, h]
  rfl

/-- A token that the choice has no parser for is left to the other parser. -/
theorem reads_onNext_none {f : Token → Option (Parser α)} {q : Parser α}
    {a : α} {t : Token} (h : f t = none) :
    (onNext f q).Reads z (t :: ts) a us ↔ q.Reads z (t :: ts) a us := by
  unfold Reads onNext
  simp only [List.head?_cons, Option.bind_some, h]

/-- **What a choice by the next token reads**: either there is a parser for that
token, which goes on behind it, or there is none. -/
theorem reads_onNext {f : Token → Option (Parser α)} {q : Parser α} {a : α} :
    (onNext f q).Reads z ts a us
      ↔ (∃ t vs p, ts = t :: vs ∧ f t = some p ∧ p.Reads z vs a us)
        ∨ ((∀ t ∈ ts.head?, f t = none) ∧ q.Reads z ts a us) := by
  cases ts with
  | nil => simp [reads_onNext_nil]
  | cons t ts =>
    cases h : f t with
    | none =>
      rw [reads_onNext_none h]
      refine ⟨fun hq => .inr ⟨by simpa using h, hq⟩, ?_⟩
      rintro (⟨t', vs, p, heq, hp, -⟩ | ⟨-, hq⟩)
      · obtain ⟨rfl, rfl⟩ := List.cons.inj heq
        rw [h] at hp
        cases hp
      · exact hq
    | some p =>
      rw [reads_onNext_some h]
      refine ⟨fun hp => .inl ⟨t, ts, p, rfl, h, hp⟩, ?_⟩
      rintro (⟨t', vs, p', heq, hp', hr⟩ | ⟨hn, -⟩)
      · obtain ⟨rfl, rfl⟩ := List.cons.inj heq
        rw [h] at hp'
        obtain rfl := Option.some.inj hp'
        exact hr
      · rw [hn t rfl] at h
        cases h

/-- A punctuator that has to come next is read exactly if it does. -/
@[simp] theorem reads_expect {m : Punctuator} {context : String} {u : Unit} :
    (expect m context).Reads z ts u us
      ↔ ∃ t, t.kind = .punctuator m ∧ ts = t :: us := by
  unfold expect
  rw [reads_onNext]
  simp only [Option.ite_none_right_eq_some, Option.some.injEq, reads_failHere,
    and_false, or_false]
  constructor
  · rintro ⟨t, vs, p, rfl, ⟨ht, rfl⟩, hp⟩
    obtain ⟨-, rfl⟩ := reads_pure.1 hp
    exact ⟨t, ht, rfl⟩
  · rintro ⟨t, ht, rfl⟩
    exact ⟨t, us, _, rfl, ⟨ht, rfl⟩, reads_pure.2 ⟨rfl, rfl⟩⟩

/-- A punctuator that may come next is read if it does; otherwise nothing is
read, and then it is known that something else comes next. -/
theorem reads_accept {m : Punctuator} {o : Option Token} :
    (accept m).Reads z ts o us
      ↔ (∃ t, o = some t ∧ t.kind = .punctuator m ∧ ts = t :: us)
        ∨ (o = none ∧ us = ts
          ∧ ∀ t ∈ ts.head?, t.kind ≠ .punctuator m) := by
  unfold accept
  rw [reads_onNext]
  simp only [Option.ite_none_right_eq_some, Option.some.injEq, reads_pure]
  constructor
  · rintro (⟨t, vs, p, rfl, ⟨ht, rfl⟩, hp⟩ | ⟨hn, rfl, rfl⟩)
    · obtain ⟨rfl, rfl⟩ := reads_pure.1 hp
      exact .inl ⟨t, rfl, ht, rfl⟩
    · exact .inr ⟨rfl, rfl, fun t ht => by simpa using hn t ht⟩
  · rintro (⟨t, rfl, ht, rfl⟩ | ⟨rfl, rfl, hn⟩)
    · exact .inl ⟨t, us, _, rfl, ⟨ht, rfl⟩, reads_pure.2 ⟨rfl, rfl⟩⟩
    · exact .inr ⟨fun t ht => by simpa using hn t ht, rfl, rfl⟩

end TreeScript.Parser
