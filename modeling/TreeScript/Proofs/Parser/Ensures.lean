import TreeScript.Parser.Stmt

/-!
# What parsers answer

`p.Ensures T Q` says that whatever the parser `p` answers satisfies `Q`, as long
as the tokens it reads satisfy `T`. Nothing is said about the faults that `p`
recorded on the way: a program that was read with recovery is a program that
runs.

One lemma for each way to build a parser is enough to follow a property through
the whole grammar, as no parser puts tokens back (`Parser.rest_suffix`).

What is ensured of an answer may depend on other answers, as a rule goes on with
what its parts have given. So `Q` is a predicate on the answer itself, and the
second of two parsers is given the first answer with what is known of it
(`Ensures.bind`).
-/

namespace TreeScript.Parser

variable {α β : Type} {T : Token → Prop} {P Q : α → Prop} {R : β → Prop}

/-- **Whatever `p` answers satisfies `Q`**, if all tokens satisfy `T`. Nothing
is asked of a parser that fails, nor of what it leaves. -/
def Ensures (T : Token → Prop) (p : Parser α) (Q : α → Prop) : Prop :=
  ∀ s, (∀ t ∈ s.tokens, T t) → ∀ a, (p.run s).outcome = .ok a → Q a

theorem Ensures.mono {p : Parser α} (h : p.Ensures T P)
    (hPQ : ∀ a, P a → Q a) : p.Ensures T Q :=
  fun s hs a ha => hPQ a (h s hs a ha)

theorem ensures_pure {a : α} (h : Q a) : (pure a : Parser α).Ensures T Q := by
  intro s _ b hb
  obtain rfl : a = b := Except.ok.inj hb
  exact h

/-- A parser that never answers ensures everything. So the rule for a budget
that is used up is no special case. -/
theorem ensures_failHere (f : Token → ParseError) :
    (failHere f : Parser α).Ensures T Q :=
  nofun

/-- Two parsers that succeed one after the other both succeed, and the second
begins where the first has stopped. -/
theorem bind_eq_ok {p : Parser α} {f : α → Parser β} {s : TokenStream} {b : β}
    (h : ((p >>= f).run s).outcome = .ok b) :
    ∃ a, (p.run s).outcome = .ok a
      ∧ ((f a).run (p.run s).rest).outcome = .ok b := by
  have h : ((p.run s).andThen fun a t => (f a).run t).outcome = .ok b := h
  unfold Reply.andThen at h
  split at h
  · rename_i a ha
    exact ⟨a, ha, h⟩
  · cases h

/-- **One parser after another**: the second starts from what the first ensures.
What it reads are tokens that the first has left, so they satisfy `T` too. -/
theorem Ensures.bind {p : Parser α} {f : α → Parser β} (hp : p.Ensures T P)
    (hf : ∀ a, P a → (f a).Ensures T R) : (p >>= f).Ensures T R := by
  intro s hs b hb
  obtain ⟨a, ha, hb⟩ := bind_eq_ok hb
  refine hf a (hp s hs a ha) (p.run s).rest ?_ b hb
  intro t ht
  exact hs t ((p.rest_suffix s).1.subset ht)

/-- **A choice by the next token** ensures what all its parsers ensure. The
token that is chosen by satisfies `T`, and its parser may rely on it. -/
theorem ensures_onNext {f : Token → Option (Parser α)} {otherwise : Parser α}
    (hf : ∀ t p, T t → f t = some p → p.Ensures T Q)
    (ho : otherwise.Ensures T Q) : (onNext f otherwise).Ensures T Q := by
  intro s hs a ha
  simp only [onNext] at ha
  split at ha
  · rename_i p hp
    obtain ⟨t, ht, htp⟩ := Option.bind_eq_some_iff.1 hp
    have hmem : t ∈ s.tokens := List.mem_of_mem_head? ht
    refine hf t p (hs t hmem) htp s.tail ?_ a ha
    intro u hu
    exact hs u (List.mem_of_mem_tail hu)
  · exact ho s hs a ha

/-- Every declaration of a sequence satisfies what one declaration does, also
those behind a malformed one, by induction along the sequence. -/
theorem ensures_declarations {stop : Token → Bool} {item : Rule Stmt}
    {Q : Stmt → Prop} (h : item.parser.Ensures T Q) :
    (declarations stop item).Ensures T (∀ d ∈ ·, Q d) := by
  intro s hs ds hds
  obtain rfl : (TreeScript.declarations stop item s).statements = ds :=
    Except.ok.inj hds
  clear hds
  fun_induction TreeScript.declarations stop item s with
  | case1 => simp
  | case2 => simp
  | case3 s _ _ _ _ r d ho more ih =>
    have hrest : ∀ t ∈ r.rest.tokens, T t := fun t ht =>
      hs t ((item.parser.rest_suffix s).1.subset ht)
    exact List.forall_mem_cons.2 ⟨h s hs d ho, ih hrest⟩
  | case4 s _ _ _ _ r e _ more ih =>
    -- What the malformed declaration left is skipped further, never read again.
    have hsuffix := (resync_isSuffix s r.rest).trans (item.parser.rest_suffix s)
    exact ih fun t ht => hs t (hsuffix.1.subset ht)

end TreeScript.Parser
