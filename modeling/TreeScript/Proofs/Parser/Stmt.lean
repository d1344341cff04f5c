import Mathlib
import TreeScript.Parser.Stmt
import TreeScript.Proofs.Parser.Expr

/-!
# Reading statements follows the grammar

A statement that is read without a fault is a statement of the grammar, and
every statement of the grammar is read, as long as the budget admits its
nesting. The parts come first, each under the assumption that the rules for
expressions and statements inside are exact; `statement_exact` then closes the
circle by induction on the budget.

A statement that ends in an `if` without an `else` is only complete if no `else`
follows, and this is the only way in which a statement looks at what stands
behind it (`ElseFree`). Since no declaration begins with `else`, a sequence of
declarations never has to look: reading the declarations of the grammar in
front of anything else leaves that as if nothing had stood there
(`declarations_append`).

The statements of the grammar are told apart by their first words, and so are
the rules of the parser. For each word there is one lemma that says what is read
behind it (`ReadsBehind`), and these come together in `statement_of_reads` and
`reads_of_statement`, one for each direction.

A program is then a sequence of declarations whose nesting the budget admits
(`parse_eq_iff`). Recovery does not appear in this: a run that has dropped
something has recorded a fault, and only runs without a fault are compared with
the grammar.
-/

namespace TreeScript

open Grammar

/-- What follows does not begin with `else`. The condition is on the first token
alone, and at the end it holds. -/
def ElseFree (us : List Token) : Prop :=
  ∀ t ∈ us.head?, t.kind ≠ .keyword .elseKw

/-- A sequence of declarations in front keeps what follows free of `else`, as
none of them begins with one. So only the last declaration of a text has to
care. -/
theorem elseFree_of_sequence {ps us : List Token} {ss : List Stmt} {n : Nat}
    (h : Sequence ps ss n) (hus : ElseFree us) : ElseFree (ps ++ us) := by
  cases h with
  | nil => exact hus
  | cons hd _ =>
    obtain ⟨t, ts, rfl, ht, -⟩ := hd.head
    intro u hu
    obtain rfl := Option.some.inj hu
    exact ht

/-! ## Parts of statements

Each part ends with a token of its own, a semicolon or a parenthesis, and these
end the expression in front of them. So where an expression ends never depends
on what follows the part. -/

namespace Parser

variable {expression : Rule Expr} {b : Nat} {z : Token} {ts us : List Token}

/-- A definition has a name, which is an identifier. -/
theorem reads_variableName {name : Token} :
    variableName.Reads z ts name us
      ↔ name.kind = .identifier ∧ ts = name :: us := by
  unfold variableName
  rw [reads_onNext]
  simp only [Option.ite_none_right_eq_some, Option.some.injEq, reads_failHere,
    and_false, or_false]
  constructor
  · rintro ⟨t, vs, p, rfl, ⟨ht, rfl⟩, hp⟩
    obtain ⟨rfl, rfl⟩ := reads_pure.1 hp
    exact ⟨ht, rfl⟩
  · rintro ⟨ht, rfl⟩
    exact ⟨name, us, _, rfl, ⟨ht, rfl⟩, reads_pure.2 ⟨rfl, rfl⟩⟩

/-- An expression in front of a token that closes it. From the exactness of
expressions this takes away the condition on what follows. -/
theorem reads_closed (h : expression.Exact .expression b) {m : Punctuator}
    (hm : m = .semicolon ∨ m = .rightParen) {e : Expr} {r : Token}
    (hr : r.kind = .punctuator m) :
    expression.parser.Reads z ts e (r :: us)
      ↔ ∃ ps n, ts = ps ++ r :: us ∧ Derives .expression ps e n ∧ n ≤ b :=
  h.reads.trans (and_iff_left (Category.ends_of_closing hr hm))

/-- An expression and its semicolon. -/
theorem reads_terminated (h : expression.Exact .expression b)
    {context : String} {e : Expr} :
    (terminated expression context).Reads z ts e us
      ↔ ∃ ps n semi, ts = ps ++ semi :: us ∧ Derives .expression ps e n
        ∧ n ≤ b ∧ semi.kind = .punctuator .semicolon := by
  unfold terminated
  simp only [reads_bind, reads_expect, reads_pure]
  constructor
  · rintro ⟨e', _, hr, _, _, ⟨semi, hsemi, rfl⟩, rfl, rfl⟩
    obtain ⟨ps, n, rfl, hd, hn⟩ := (reads_closed h (.inl rfl) hsemi).1 hr
    exact ⟨ps, n, semi, rfl, hd, hn, hsemi⟩
  · rintro ⟨ps, n, semi, rfl, hd, hn, hsemi⟩
    exact ⟨e, semi :: us,
      (reads_closed h (.inl rfl) hsemi).2 ⟨ps, n, rfl, hd, hn⟩, (), us,
      ⟨semi, hsemi, rfl⟩, rfl, rfl⟩

/-- An expression as a statement. Its place is that of its first token, which
the parser looks at before it reads. -/
theorem reads_expressionStatement (h : expression.Exact .expression b)
    {s : Stmt} :
    (expressionStatement expression).Reads z ts s us
      ↔ ∃ ps n, ts = ps ++ us ∧ ExprStmt ps s n ∧ n ≤ b := by
  unfold expressionStatement
  simp only [reads_bind, reads_here, reads_terminated h, reads_pure]
  constructor
  · rintro ⟨first, _, ⟨rfl, rfl⟩, e, _, ⟨ps, n, semi, rfl, hd, hn, hsemi⟩,
      rfl, rfl⟩
    obtain ⟨t, vs, rfl, -⟩ := hd.head
    exact ⟨t :: vs ++ [semi], n, by simp, .mk hd hsemi, hn⟩
  · rintro ⟨_, n, rfl, ⟨hd, hsemi⟩, hn⟩
    exact ⟨_, _, ⟨rfl, rfl⟩, _, us, ⟨_, n, _, by simp, hd, hn, hsemi⟩, rfl, rfl⟩

/-- A definition, behind the word that begins it. The word itself is needed for
the place of the statement and was taken by the choice that led here. -/
theorem reads_definition (h : expression.Exact .expression b) {l : Token}
    (hl : l.kind = .keyword .letKw) {s : Stmt} :
    (definition expression l.span).Reads z ts s us
      ↔ ∃ ps n, ts = ps ++ us ∧ Definition (l :: ps) s n ∧ n ≤ b := by
  unfold definition initialValue
  simp only [reads_bind, reads_variableName, reads_expect, reads_pure]
  constructor
  · rintro ⟨name, _, ⟨hname, rfl⟩, o, _, ⟨o', _, haccept, hinit⟩, _, _,
      ⟨semi, hsemi, rfl⟩, rfl, rfl⟩
    rcases reads_accept.1 haccept with ⟨eq, rfl, heq, rfl⟩ | ⟨rfl, rfl, -⟩
    · obtain ⟨e, _, hr, hpure⟩ := reads_bind.1 hinit
      obtain ⟨rfl, rfl⟩ := reads_pure.1 hpure
      obtain ⟨ps, n, rfl, hd, hn⟩ := (reads_closed h (.inl rfl) hsemi).1 hr
      exact ⟨name :: eq :: (ps ++ [semi]), n, by simp,
        .initialized hl hname heq hd hsemi, hn⟩
    · obtain ⟨rfl, rfl⟩ := reads_pure.1 hinit
      exact ⟨[name, semi], 0, rfl, .bare hl hname hsemi, Nat.zero_le b⟩
  · rintro ⟨ps, n, rfl, hdef, hn⟩
    cases hdef with
    | @bare _ name semi _ hname hsemi =>
      -- a semicolon behind the name is no equal sign
      have hno : ∀ t ∈ (semi :: us).head?, t.kind ≠ .punctuator .equal := by
        intro t ht
        obtain rfl := Option.some.inj ht
        rw [hsemi]
        decide
      exact ⟨name, semi :: us, ⟨hname, rfl⟩, none, semi :: us,
        ⟨none, semi :: us, reads_accept.2 (.inr ⟨rfl, rfl, hno⟩),
          reads_pure.2 ⟨rfl, rfl⟩⟩, (), us, ⟨semi, hsemi, rfl⟩, rfl, rfl⟩
    | @initialized _ name eq semi ps e _ _ hname heq hd hsemi =>
      have hr : expression.parser.Reads z (ps ++ semi :: us) e (semi :: us) :=
        (reads_closed h (.inl rfl) hsemi).2 ⟨ps, n, rfl, hd, hn⟩
      exact ⟨name, eq :: (ps ++ semi :: us), ⟨hname, by simp⟩, some e,
        semi :: us, ⟨some eq, ps ++ semi :: us,
          reads_accept.2 (.inl ⟨eq, rfl, heq, rfl⟩),
          reads_bind.2 ⟨e, semi :: us, hr, reads_pure.2 ⟨rfl, rfl⟩⟩⟩, (), us,
        ⟨semi, hsemi, rfl⟩, rfl, rfl⟩

/-- The condition of a branch or a loop, with its parentheses. -/
theorem reads_condition (h : expression.Exact .expression b)
    {opening closing : String} {c : Expr} :
    (condition expression opening closing).Reads z ts c us
      ↔ ∃ l cs n r, ts = l :: (cs ++ r :: us)
        ∧ l.kind = .punctuator .leftParen ∧ Derives .expression cs c n
        ∧ n ≤ b ∧ r.kind = .punctuator .rightParen := by
  unfold condition
  simp only [reads_bind, reads_expect, reads_pure]
  constructor
  · rintro ⟨_, _, ⟨l, hl, rfl⟩, c', _, hr, _, _, ⟨r, hrk, rfl⟩, rfl, rfl⟩
    obtain ⟨cs, n, rfl, hd, hn⟩ := (reads_closed h (.inr rfl) hrk).1 hr
    exact ⟨l, cs, n, r, rfl, hl, hd, hn, hrk⟩
  · rintro ⟨l, cs, n, r, rfl, hl, hd, hn, hrk⟩
    exact ⟨(), _, ⟨l, hl, rfl⟩, c, r :: us,
      (reads_closed h (.inr rfl) hrk).2 ⟨cs, n, rfl, hd, hn⟩, (), us,
      ⟨r, hrk, rfl⟩, rfl, rfl⟩

/-- The part of a branch behind `else`. If there is none, it is known that no
`else` comes next: this is the only condition on what follows a statement. -/
theorem reads_alternative {statement : Rule Stmt} {o : Option Stmt} :
    (alternative statement).Reads z ts o us
      ↔ (∃ x vs s, ts = x :: vs ∧ x.kind = .keyword .elseKw ∧ o = some s
          ∧ statement.parser.Reads z vs s us)
        ∨ (o = none ∧ us = ts ∧ ElseFree ts) := by
  unfold alternative
  rw [reads_onNext]
  simp only [Option.ite_none_right_eq_some, Option.some.injEq, reads_pure]
  constructor
  · rintro (⟨x, vs, p, rfl, ⟨hx, rfl⟩, hp⟩ | ⟨hno, rfl, rfl⟩)
    · obtain ⟨s, _, hs, hpure⟩ := reads_bind.1 hp
      obtain ⟨rfl, rfl⟩ := reads_pure.1 hpure
      exact .inl ⟨x, vs, s, rfl, hx, rfl, hs⟩
    · exact .inr ⟨rfl, rfl, fun t ht => by simpa using hno t ht⟩
  · rintro (⟨x, vs, s, rfl, hx, rfl, hs⟩ | ⟨rfl, rfl, hno⟩)
    · exact .inl ⟨x, vs, _, rfl, ⟨hx, rfl⟩,
        reads_bind.2 ⟨s, us, hs, reads_pure.2 ⟨rfl, rfl⟩⟩⟩
    · exact .inr ⟨fun t ht => by simpa using hno t ht, rfl, rfl⟩

/-- The first clause of a `for` loop: a definition, an expression, or nothing
but a semicolon. Each of them ends with its semicolon. -/
theorem reads_initialClause (h : expression.Exact .expression b)
    {o : Option Stmt} :
    (initialClause expression).Reads z ts o us
      ↔ ∃ ps n, ts = ps ++ us ∧ Initial ps o n ∧ n ≤ b := by
  constructor
  · intro hr
    rcases reads_onNext.1 hr with ⟨t, vs, p, rfl, hp, hr⟩ | ⟨-, hr⟩
    · split at hp
      · rename_i ht
        obtain rfl := Option.some.inj hp
        obtain ⟨rfl, rfl⟩ := reads_pure.1 hr
        exact ⟨[t], 0, rfl, .absent ht, Nat.zero_le b⟩
      split at hp
      · rename_i ht
        obtain rfl := Option.some.inj hp
        obtain ⟨s, _, hs, hpure⟩ := reads_bind.1 hr
        obtain ⟨rfl, rfl⟩ := reads_pure.1 hpure
        obtain ⟨ps, n, rfl, hd, hn⟩ := (reads_definition h ht).1 hs
        exact ⟨t :: ps, n, rfl, .definition hd, hn⟩
      · cases hp
    · obtain ⟨s, _, hs, hpure⟩ := reads_bind.1 hr
      obtain ⟨rfl, rfl⟩ := reads_pure.1 hpure
      obtain ⟨ps, n, rfl, hd, hn⟩ := (reads_expressionStatement h).1 hs
      exact ⟨ps, n, rfl, .exprStmt hd, hn⟩
  · rintro ⟨ps, n, rfl, hinit, hn⟩
    cases hinit with
    | absent hsemi =>
      exact (reads_onNext_some (if_pos hsemi)).2 (reads_pure.2 ⟨rfl, rfl⟩)
    | @definition ps s _ hd =>
      obtain ⟨l, vs, rfl, hl⟩ := hd.head
      have hne : ¬ l.kind = .punctuator .semicolon := by
        rw [hl]
        exact nofun
      refine (reads_onNext_some ((if_neg hne).trans (if_pos hl))).2 ?_
      exact reads_bind.2 ⟨s, us, (reads_definition h hl).2 ⟨vs, n, rfl, hd, hn⟩,
        reads_pure.2 ⟨rfl, rfl⟩⟩
    | @exprStmt ps s _ hd =>
      obtain ⟨t, vs, rfl, ht⟩ := hd.head
      have hsemi : ¬ t.kind = .punctuator .semicolon :=
        ht.ne_punctuator nofun rfl
      have hlet : ¬ t.kind = .keyword .letKw := ht.ne_keyword nofun
      refine (reads_onNext_none ((if_neg hsemi).trans (if_neg hlet))).2 ?_
      exact reads_bind.2 ⟨s, us,
        (reads_expressionStatement h).2 ⟨t :: vs, n, rfl, hd, hn⟩,
        reads_pure.2 ⟨rfl, rfl⟩⟩

/-- An expression that may be missing, in front of the token that closes it. No
expression begins with that token, so it is clear whether one is there. -/
theorem reads_optionalExpression (h : expression.Exact .expression b)
    {m : Punctuator} (hm : m = .semicolon ∨ m = .rightParen)
    {o : Option Expr} {r : Token} (hr : r.kind = .punctuator m) :
    (optionalExpression expression m).Reads z ts o (r :: us)
      ↔ ∃ ps n, ts = ps ++ r :: us ∧ Optional ps o n ∧ n ≤ b := by
  unfold optionalExpression
  simp only [reads_bind, reads_nextIs]
  constructor
  · rintro ⟨next, _, ⟨hnext, rfl⟩, hrest⟩
    cases next with
    | true =>
      obtain ⟨rfl, rfl⟩ := reads_pure.1 hrest
      exact ⟨[], 0, rfl, .absent, Nat.zero_le b⟩
    | false =>
      obtain ⟨e, _, he, hpure⟩ := reads_bind.1 hrest
      obtain ⟨rfl, rfl⟩ := reads_pure.1 hpure
      obtain ⟨ps, n, rfl, hd, hn⟩ := (reads_closed h hm hr).1 he
      exact ⟨ps, n, rfl, .present hd, hn⟩
  · rintro ⟨ps, n, rfl, hopt, hn⟩
    cases hopt with
    | absent =>
      exact ⟨true, r :: us, ⟨by simp [hr], rfl⟩, reads_pure.2 ⟨rfl, rfl⟩⟩
    | @present ps e _ hd =>
      obtain ⟨t, vs, rfl, ht⟩ := hd.head
      have hne : t.kind ≠ .punctuator m := by
        rcases hm with rfl | rfl <;> exact ht.ne_punctuator (by decide) rfl
      have he : expression.parser.Reads z (t :: vs ++ r :: us) e (r :: us) :=
        (reads_closed h hm hr).2 ⟨t :: vs, n, rfl, hd, hn⟩
      refine ⟨false, t :: vs ++ r :: us, ⟨by simp [hne], rfl⟩, ?_⟩
      exact reads_bind.2 ⟨e, r :: us, he, reads_pure.2 ⟨rfl, rfl⟩⟩

/-- The three clauses of a `for` loop and its parentheses. -/
theorem reads_forClauses (h : expression.Exact .expression b)
    {c : ForClauses} :
    (forClauses expression).Reads z ts c us
      ↔ ∃ l is cs semi vs r i j k,
        ts = l :: (is ++ (cs ++ semi :: (vs ++ r :: us)))
        ∧ l.kind = .punctuator .leftParen ∧ Initial is c.initial i
        ∧ Optional cs c.condition j ∧ semi.kind = .punctuator .semicolon
        ∧ Optional vs c.increment k ∧ r.kind = .punctuator .rightParen
        ∧ i ≤ b ∧ j ≤ b ∧ k ≤ b := by
  unfold forClauses
  simp only [reads_bind, reads_expect, reads_pure, reads_initialClause h]
  constructor
  · rintro ⟨_, _, ⟨l, hl, rfl⟩, initial, _, ⟨is, i, rfl, hi, hib⟩, condition, _,
      hc, _, _, ⟨semi, hsemi, rfl⟩, increment, _, hu, _, _, ⟨r, hr, rfl⟩, rfl,
      rfl⟩
    obtain ⟨cs, j, rfl, hj, hjb⟩ :=
      (reads_optionalExpression h (.inl rfl) hsemi).1 hc
    obtain ⟨vs, k, rfl, hk, hkb⟩ :=
      (reads_optionalExpression h (.inr rfl) hr).1 hu
    exact ⟨l, is, cs, semi, vs, r, i, j, k, rfl, hl, hi, hj, hsemi, hk, hr, hib,
      hjb, hkb⟩
  · rintro ⟨l, is, cs, semi, vs, r, i, j, k, rfl, hl, hi, hj, hsemi, hk, hr,
      hib, hjb, hkb⟩
    exact ⟨(), _, ⟨l, hl, rfl⟩, c.initial, _, ⟨is, i, rfl, hi, hib⟩,
      c.condition, semi :: (vs ++ r :: us),
      (reads_optionalExpression h (.inl rfl) hsemi).2 ⟨cs, j, rfl, hj, hjb⟩,
      (), _, ⟨semi, hsemi, rfl⟩, c.increment, r :: us,
      (reads_optionalExpression h (.inr rfl) hr).2 ⟨vs, k, rfl, hk, hkb⟩, (),
      us, ⟨r, hr, rfl⟩, rfl, rfl⟩

end Parser

/-- The loop that the parser builds is the one the grammar asks for. They are
written differently, the one with functions on options, the other case by case.
-/
theorem loop_eq_forTree (c : ForClauses) (span : Span) (body : Stmt) :
    c.loop span body
      = forTree span c.initial c.condition c.increment body := by
  obtain ⟨initial, condition, increment⟩ := c
  cases initial <;> cases condition <;> cases increment <;> rfl

/-! ## Sequences of declarations

A sequence is read declaration by declaration, and the equations below are its
steps: it is at the end, it is stopped, a declaration is read, or one is
dropped. All that is said of sequences uses these and not the definition, which
recurs on the number of tokens that are left. -/

section Declarations

variable {stop : Token → Bool} {item : Rule Stmt} {b : Nat} {z t : Token}
  {ts us : List Token}

@[simp] theorem declarations_nil :
    declarations stop item ⟨[], z⟩ = ⟨[], [], ⟨[], z⟩⟩ := by
  rw [declarations]

/-- A token that stops a sequence is not taken. -/
theorem declarations_of_stop (h : stop t = true) :
    declarations stop item ⟨t :: ts, z⟩ = ⟨[], [], ⟨t :: ts, z⟩⟩ := by
  rw [declarations]
  split
  · rfl
  · rename_i t' ts' heq
    obtain ⟨rfl, rfl⟩ := List.cons.inj heq
    exact if_pos h

/-- A declaration that is read stands in front of what is read behind it. -/
theorem declarations_of_ok (h : stop t = false) {s : Stmt}
    {recorded : List ParseError} {rest : TokenStream}
    (hr : item.run ⟨t :: ts, z⟩ = ⟨.ok s, recorded, rest⟩) :
    declarations stop item ⟨t :: ts, z⟩
      = ⟨s :: (declarations stop item rest).statements,
        recorded ++ (declarations stop item rest).recorded,
        (declarations stop item rest).rest⟩ := by
  rw [declarations]
  split
  · rename_i heq
    cases heq
  · rename_i t' ts' heq
    obtain ⟨rfl, rfl⟩ := List.cons.inj heq
    rw [if_neg (by simp [h])]
    dsimp only
    split <;> rename_i ho <;> rw [hr] at ho
    · obtain rfl := Except.ok.inj ho
      simp only [hr]
    · cases ho

/-- A declaration that is dropped leaves its fault, and reading resumes further
on. -/
theorem declarations_of_error (h : stop t = false) {e : ParseError}
    {recorded : List ParseError} {rest : TokenStream}
    (hr : item.run ⟨t :: ts, z⟩ = ⟨.error e, recorded, rest⟩) :
    declarations stop item ⟨t :: ts, z⟩
      = ⟨(declarations stop item (resync ⟨t :: ts, z⟩ rest)).statements,
        recorded ++ e
          :: (declarations stop item (resync ⟨t :: ts, z⟩ rest)).recorded,
        (declarations stop item (resync ⟨t :: ts, z⟩ rest)).rest⟩ := by
  rw [declarations]
  split
  · rename_i heq
    cases heq
  · rename_i t' ts' heq
    obtain ⟨rfl, rfl⟩ := List.cons.inj heq
    rw [if_neg (by simp [h])]
    dsimp only
    split <;> rename_i ho <;> rw [hr] at ho
    · cases ho
    · obtain rfl := Except.error.inj ho
      simp only [hr]

/-- **The rule reads the declarations of the grammar** of nesting at most `b`. A
declaration may be followed by anything but an `else`. -/
structure Rule.ExactDeclaration (item : Rule Stmt) (b : Nat) : Prop where
  /-- Whatever is read is a declaration. -/
  sound {z : Token} {ts us : List Token} {s : Stmt} :
    item.parser.Reads z ts s us →
      ∃ ps n, ts = ps ++ us ∧ Declaration ps s n ∧ n ≤ b
  /-- Every declaration is read. -/
  complete {z : Token} {ps us : List Token} {s : Stmt} {n : Nat} :
    Declaration ps s n → n ≤ b → ElseFree us →
      item.parser.Reads z (ps ++ us) s us

/-- Declarations are read up to a token that stops them, or to the end: what is
left begins with no other token. -/
theorem stop_of_head_rest (s : TokenStream) :
    ∀ t ∈ (declarations stop item s).rest.tokens.head?, stop t := by
  fun_induction declarations stop item s with
  | case1 s hs =>
    rw [hs]
    intro u hu
    cases hu
  | case2 s t ts hs hstop =>
    rw [hs]
    intro u hu
    obtain rfl := Option.some.inj hu
    exact hstop
  | case3 s t ts hs hstop r d hd more ih => exact ih
  | case4 s t ts hs hstop r e he more ih => exact ih

/-- **Declarations read without a fault are a sequence of the grammar.** A
declaration that is dropped records a fault, so in such a run none is. -/
theorem sequence_of_declarations (h : item.ExactDeclaration b)
    (s : TokenStream) (hclean : (declarations stop item s).recorded = []) :
    ∃ ps n, s.tokens = ps ++ (declarations stop item s).rest.tokens
      ∧ Sequence ps (declarations stop item s).statements n ∧ n ≤ b := by
  fun_induction declarations stop item s with
  | case1 s hs => exact ⟨[], 0, rfl, .nil, Nat.zero_le b⟩
  | case2 s t ts hs hstop => exact ⟨[], 0, rfl, .nil, Nat.zero_le b⟩
  | case3 s t ts hs hstop r d hd more ih =>
    obtain ⟨hr, hmore⟩ := List.append_eq_nil_iff.1 hclean
    have hread : item.parser.Reads s.finish s.tokens d r.rest.tokens := by
      have hz : r.rest.finish = s.finish := (item.parser.rest_suffix s).2
      show r = _
      rw [← hd, ← hr, ← hz]
    obtain ⟨ps, i, hps, hi, hib⟩ := h.sound hread
    obtain ⟨qs, j, hqs, hj, hjb⟩ := ih hmore
    refine ⟨ps ++ qs, max i j, ?_, .cons hi hj, Nat.max_le.2 ⟨hib, hjb⟩⟩
    rw [hps, hqs, List.append_assoc]
  | case4 s t ts hs hstop r e he more ih =>
    exact absurd (List.append_eq_nil_iff.1 hclean).2 (List.cons_ne_nil _ _)

/-- **A sequence of the grammar is read to its end**, and what stands behind it
is then read as if nothing had stood in front. Only a closing brace may stop
the reading, so that no declaration of the sequence does. -/
theorem declarations_append (h : item.ExactDeclaration b)
    (hstop : ∀ t, stop t = true → t.kind = .punctuator .rightBrace)
    {ps : List Token} {ss : List Stmt} {n : Nat} (hs : Sequence ps ss n)
    (hn : n ≤ b) (hus : ElseFree us) :
    declarations stop item ⟨ps ++ us, z⟩
      = ⟨ss ++ (declarations stop item ⟨us, z⟩).statements,
        (declarations stop item ⟨us, z⟩).recorded,
        (declarations stop item ⟨us, z⟩).rest⟩ := by
  induction ss generalizing ps n with
  | nil =>
    cases hs
    rfl
  | cons s ss ih =>
    cases hs with
    | @cons ps qs _ _ i j hd hs =>
      obtain ⟨hi, hj⟩ := Nat.max_le.1 hn
      have hfree := elseFree_of_sequence hs hus
      have hread : item.parser.Reads z (ps ++ (qs ++ us)) s (qs ++ us) :=
        h.complete hd hi hfree
      obtain ⟨t, ts, rfl, -, hbrace⟩ := hd.head
      have hgo : stop t = false :=
        Bool.eq_false_iff.2 (fun ht => hbrace (hstop t ht))
      rw [List.cons_append] at hread
      rw [List.append_assoc, List.cons_append, declarations_of_ok hgo hread,
        ih hs hj]
      rfl

end Declarations

/-! ## Statements

The rules for statements, as far as they have a first word that decides which
rule it is, and then those that begin like an expression. -/

/-- **The rule reads the statements of the grammar** of nesting at most `b`. A
statement that is dangling must not be followed by an `else`. -/
structure Rule.ExactStatement (statement : Rule Stmt) (b : Nat) : Prop where
  /-- What it reads. -/
  reads {z : Token} {ts us : List Token} {s : Stmt} :
    statement.parser.Reads z ts s us
      ↔ ∃ ps n d, ts = ps ++ us ∧ Statement ps s n d ∧ n ≤ b
        ∧ (d = true → ElseFree us)

section Statements

variable {expression : Rule Expr} {statement : Rule Stmt} {b : Nat} {z : Token}
  {ts us : List Token}

/-- Declarations are read as the grammar says, if expressions and statements
are. -/
theorem Rule.ExactStatement.declaration
    (he : expression.Exact .expression b) (hs : statement.ExactStatement b) :
    (Rule.declaration expression statement).ExactDeclaration b := by
  constructor
  · intro z ts us s hr
    rcases Parser.reads_onNext.1 hr with ⟨t, vs, p, rfl, hp, hr⟩ | ⟨-, hr⟩
    · split at hp
      · rename_i ht
        obtain rfl := Option.some.inj hp
        obtain ⟨ps, n, rfl, hd, hn⟩ := (Parser.reads_definition he ht).1 hr
        exact ⟨t :: ps, n, rfl, .definition hd, hn⟩
      · cases hp
    · obtain ⟨ps, n, d, rfl, hst, hn, -⟩ := hs.reads.1 hr
      exact ⟨ps, n, rfl, .statement hst, hn⟩
  · intro z ps us s n hd hn hus
    cases hd with
    | definition hd =>
      obtain ⟨l, vs, rfl, hl⟩ := hd.head
      exact (Parser.reads_onNext_some (if_pos hl)).2
        ((Parser.reads_definition he hl).2 ⟨vs, n, rfl, hd, hn⟩)
    | @statement _ _ _ d hst =>
      have hread : statement.parser.Reads z (ps ++ us) s us :=
        hs.reads.2 ⟨ps, n, d, rfl, hst, hn, fun _ => hus⟩
      obtain ⟨t, vs, rfl, ht⟩ := hst.head
      exact (Parser.reads_onNext_none (if_neg ht.ne_let)).2 hread

/-- What is read behind a first word is the rest of a statement that begins with
the word. Whether the statement is dangling is told by what it ends with. -/
def ReadsBehind (w : Token) (p : Parser Stmt) (b : Nat) : Prop :=
  ∀ {z : Token} {ts us : List Token} {s : Stmt}, p.Reads z ts s us →
    ∃ ps n d, ts = ps ++ us ∧ Statement (w :: ps) s n d ∧ n ≤ b
      ∧ (d = true → ElseFree us)

namespace Parser

/-- A branch. If an `else` follows, the statement in front of it must not be
dangling; if none does, the branch itself is. -/
theorem readsBehind_branch (he : expression.Exact .expression b)
    (hs : statement.ExactStatement b) {w : Token}
    (hw : w.kind = .keyword .ifKw) :
    ReadsBehind w (branch expression statement w.span) (b + 1) := by
  intro z ts us s hr
  simp only [branch, reads_bind, reads_condition he, reads_pure, hs.reads]
    at hr
  obtain ⟨c, _, ⟨l, cs, i, r, rfl, hl, hc, hi, hr⟩, s, _,
    ⟨ps, j, d, rfl, hst, hj, hfree⟩, o, _, halt, rfl, rfl⟩ := hr
  rcases reads_alternative.1 halt with
    ⟨x, vs, u, rfl, hx, rfl, hu⟩ | ⟨rfl, rfl, hno⟩
  · obtain ⟨qs, k, d', rfl, hsu, hk, hfree'⟩ := hs.reads.1 hu
    -- an `else` follows, so the first branch left no `if` open
    have hd : d = false := by
      cases d with
      | false => rfl
      | true => exact absurd hx (hfree rfl x rfl)
    subst hd
    exact ⟨l :: (cs ++ r :: (ps ++ x :: qs)), max i (max j k) + 1, d', by simp,
      .ifElse hw hl hc hr hst hx hsu,
      Nat.succ_le_succ (Nat.max_le.2 ⟨hi, Nat.max_le.2 ⟨hj, hk⟩⟩), hfree'⟩
  · exact ⟨l :: (cs ++ r :: ps), max i j + 1, true, by simp,
      .ifThen hw hl hc hr hst, Nat.succ_le_succ (Nat.max_le.2 ⟨hi, hj⟩),
      fun _ => hno⟩

/-- A `while` loop is dangling if its body is. -/
theorem readsBehind_whileLoop (he : expression.Exact .expression b)
    (hs : statement.ExactStatement b) {w : Token}
    (hw : w.kind = .keyword .whileKw) :
    ReadsBehind w (whileLoop expression statement w.span) (b + 1) := by
  intro z ts us s hr
  simp only [whileLoop, reads_bind, reads_condition he, reads_pure, hs.reads]
    at hr
  obtain ⟨c, _, ⟨l, cs, i, r, rfl, hl, hc, hi, hr⟩, s, _,
    ⟨ps, j, d, rfl, hst, hj, hfree⟩, rfl, rfl⟩ := hr
  exact ⟨l :: (cs ++ r :: ps), max i j + 1, d, by simp,
    .whileLoop hw hl hc hr hst, Nat.succ_le_succ (Nat.max_le.2 ⟨hi, hj⟩), hfree⟩

/-- A `for` loop is dangling if its body is, although in its tree the body
stands inside a block. -/
theorem readsBehind_forLoop (he : expression.Exact .expression b)
    (hs : statement.ExactStatement b) {w : Token}
    (hw : w.kind = .keyword .forKw) :
    ReadsBehind w (forLoop expression statement w.span) (b + 1) := by
  intro z ts us s hr
  simp only [forLoop, reads_bind, reads_forClauses he, reads_pure, hs.reads]
    at hr
  obtain ⟨clauses, _, ⟨l, is, cs, semi, vs, r, i, j, k, rfl, hl, hinit, hcond,
    hsemi, hinc, hr, hi, hj, hk⟩, s, _, ⟨ps, m, d, rfl, hst, hm, hfree⟩, rfl,
    rfl⟩ := hr
  rw [loop_eq_forTree]
  exact ⟨l :: (is ++ (cs ++ semi :: (vs ++ r :: ps))), _, d, by simp,
    .forLoop hw hl hinit hcond hsemi hinc hr hst,
    Nat.succ_le_succ (Nat.max_le.2 ⟨hi, Nat.max_le.2 ⟨hj,
      Nat.max_le.2 ⟨hk, hm⟩⟩⟩), hfree⟩

/-- A `print` statement ends with its semicolon. -/
theorem readsBehind_print (he : expression.Exact .expression b) {w : Token}
    (hw : w.kind = .keyword .printKw) :
    ReadsBehind w
      (do return .print w.span (← terminated expression "after value"))
      (b + 1) := by
  intro z ts us s hr
  simp only [reads_bind, reads_terminated he, reads_pure] at hr
  obtain ⟨e, _, ⟨ps, n, semi, rfl, hd, hn, hsemi⟩, rfl, rfl⟩ := hr
  exact ⟨ps ++ [semi], n + 1, false, by simp, .print hw hd hsemi,
    Nat.succ_le_succ hn, fun h => absurd h Bool.false_ne_true⟩

/-- The declarations of a block never fail, so to read them is to record no
fault. -/
theorem reads_declarations {stop : Token → Bool} {item : Rule Stmt}
    {ss : List Stmt} :
    (declarations stop item).Reads z ts ss us
      ↔ TreeScript.declarations stop item ⟨ts, z⟩ = ⟨ss, [], ⟨us, z⟩⟩ := by
  show (⟨.ok _, _, _⟩ : Reply (List Stmt)) = _ ↔ _
  cases TreeScript.declarations stop item ⟨ts, z⟩
  simp

/-- A block ends with its brace, and that brace is what stops the declarations
inside. -/
theorem readsBehind_block (he : expression.Exact .expression b)
    (hs : statement.ExactStatement b) {w : Token}
    (hw : w.kind = .punctuator .leftBrace) :
    ReadsBehind w (block (Rule.declaration expression statement) w.span)
      (b + 1) := by
  intro z ts us s hr
  simp only [block, reads_bind, reads_declarations, reads_expect, reads_pure]
    at hr
  obtain ⟨ss, _, hdecl, _, _, ⟨r, hr, rfl⟩, rfl, rfl⟩ := hr
  obtain ⟨ps, n, hps, hseq, hn⟩ := sequence_of_declarations
    (Rule.ExactStatement.declaration he hs) ⟨ts, z⟩ (by rw [hdecl])
  rw [hdecl] at hps hseq
  exact ⟨ps ++ [r], n + 1, false, hps.trans (by simp), .block hw hseq hr,
    Nat.succ_le_succ hn, fun h => absurd h Bool.false_ne_true⟩

end Parser

/-- What has been read as a statement is a statement of the grammar. If it is
dangling, no `else` follows, as the parser would have taken it. -/
theorem statement_of_reads (he : expression.Exact .expression b)
    (hs : statement.ExactStatement b) {s : Stmt}
    (hr : (Rule.statementOf expression statement).parser.Reads z ts s us) :
    ∃ ps n d, ts = ps ++ us ∧ Statement ps s n d ∧ n ≤ b + 1
      ∧ (d = true → ElseFree us) := by
  rcases Parser.reads_onNext.1 hr with ⟨t, vs, p, rfl, hp, hr⟩ | ⟨-, hr⟩
  · have hbehind : ReadsBehind t p (b + 1) := by
      unfold Rule.statementBehind at hp
      split at hp <;> rename_i ht
      · obtain rfl := Option.some.inj hp
        exact Parser.readsBehind_branch he hs ht
      · obtain rfl := Option.some.inj hp
        exact Parser.readsBehind_whileLoop he hs ht
      · obtain rfl := Option.some.inj hp
        exact Parser.readsBehind_forLoop he hs ht
      · obtain rfl := Option.some.inj hp
        exact Parser.readsBehind_print he ht
      · obtain rfl := Option.some.inj hp
        exact Parser.readsBehind_block he hs ht
      · cases hp
    obtain ⟨ps, n, d, rfl, hst⟩ := hbehind hr
    exact ⟨t :: ps, n, d, rfl, hst⟩
  · obtain ⟨ps, n, rfl, hd, hn⟩ := (Parser.reads_expressionStatement he).1 hr
    exact ⟨ps, n + 1, false, rfl, .expression hd, Nat.succ_le_succ hn, nofun⟩

/-- An expression begins with no word that leads to another statement, so
statements that are expressions are found by exclusion. -/
theorem statementBehind_eq_none {t : Token} (h : BeginsExpression t.kind) :
    Rule.statementBehind expression statement t = none := by
  unfold Rule.statementBehind
  split
  · rename_i hk
    exact absurd hk (h.ne_keyword nofun)
  · rename_i hk
    exact absurd hk (h.ne_keyword nofun)
  · rename_i hk
    exact absurd hk (h.ne_keyword nofun)
  · rename_i hk
    exact absurd hk (h.ne_keyword nofun)
  · rename_i hk
    exact absurd hk (h.ne_punctuator nofun rfl)
  · rfl

/-- The first word of a statement decides how it is read. -/
theorem reads_statementOf_of_some {w : Token} {p : Parser Stmt} {s : Stmt}
    (hw : Rule.statementBehind expression statement w = some p)
    (hp : p.Reads z ts s us) :
    (Rule.statementOf expression statement).parser.Reads z (w :: ts) s us :=
  (Parser.reads_onNext_some hw).2 hp

/-- **A statement of the grammar is read**, case by case. -/
theorem reads_of_statement (he : expression.Exact .expression b)
    (hs : statement.ExactStatement b) {ps : List Token} {s : Stmt} {n : Nat}
    {d : Bool} (hst : Statement ps s n d) (hn : n ≤ b + 1)
    (hfree : d = true → ElseFree us) :
    (Rule.statementOf expression statement).parser.Reads z (ps ++ us) s us := by
  cases hst with
  | expression hd =>
    obtain ⟨t, vs, rfl, ht⟩ := hd.head
    exact (Parser.reads_onNext_none (statementBehind_eq_none ht)).2
      ((Parser.reads_expressionStatement he).2
        ⟨t :: vs, _, rfl, hd, Nat.le_of_succ_le_succ hn⟩)
  | @print w semi ts e n hw hd hsemi =>
    refine reads_statementOf_of_some (by unfold Rule.statementBehind; rw [hw]) ?_
    simp only [Parser.reads_bind, Parser.reads_terminated he, Parser.reads_pure]
    exact ⟨e, us, ⟨ts, n, semi, by simp, hd, Nat.le_of_succ_le_succ hn, hsemi⟩,
      rfl, rfl⟩
  | @block w r ts ss n hw hseq hr =>
    refine reads_statementOf_of_some (by unfold Rule.statementBehind; rw [hw]) ?_
    simp only [Parser.block, Parser.reads_bind, Parser.reads_declarations,
      Parser.reads_expect, Parser.reads_pure]
    have hfree' : ElseFree (r :: us) := by
      intro t ht
      obtain rfl := Option.some.inj ht
      rw [hr]
      decide
    refine ⟨ss, r :: us, ?_, (), us, ⟨r, hr, rfl⟩, rfl, rfl⟩
    show declarations _ _ ⟨ts ++ [r] ++ us, z⟩ = _
    rw [List.append_assoc, List.singleton_append,
      declarations_append (Rule.ExactStatement.declaration he hs)
        (fun t ht => by simpa using ht) hseq (Nat.le_of_succ_le_succ hn) hfree',
      declarations_of_stop (by simpa using hr), List.append_nil]
  | @ifThen w l r cs ps c s i j d hw hl hc hr hst =>
    obtain ⟨hi, hj⟩ := Nat.max_le.1 (Nat.le_of_succ_le_succ hn)
    refine reads_statementOf_of_some (by unfold Rule.statementBehind; rw [hw]) ?_
    simp only [Parser.branch, Parser.reads_bind, Parser.reads_condition he,
      Parser.reads_pure, hs.reads]
    exact ⟨c, ps ++ us, ⟨l, cs, i, r, by simp, hl, hc, hi, hr⟩, s, us,
      ⟨ps, j, d, rfl, hst, hj, fun _ => hfree rfl⟩, none, us,
      Parser.reads_alternative.2 (.inr ⟨rfl, rfl, hfree rfl⟩), rfl, rfl⟩
  | @ifElse w l r x cs ps qs c s u i j k _ hw hl hc hr hst hx hsu =>
    obtain ⟨hi, hjk⟩ := Nat.max_le.1 (Nat.le_of_succ_le_succ hn)
    obtain ⟨hj, hk⟩ := Nat.max_le.1 hjk
    refine reads_statementOf_of_some (by unfold Rule.statementBehind; rw [hw]) ?_
    simp only [Parser.branch, Parser.reads_bind, Parser.reads_condition he,
      Parser.reads_pure, hs.reads]
    exact ⟨c, ps ++ x :: (qs ++ us), ⟨l, cs, i, r, by simp, hl, hc, hi, hr⟩, s,
      x :: (qs ++ us),
      ⟨ps, j, false, rfl, hst, hj, fun h => absurd h Bool.false_ne_true⟩, some u, us,
      Parser.reads_alternative.2 (.inl ⟨x, qs ++ us, u, rfl, hx, rfl,
        hs.reads.2 ⟨qs, k, d, rfl, hsu, hk, hfree⟩⟩), rfl, rfl⟩
  | @whileLoop w l r cs ps c s i j _ hw hl hc hr hst =>
    obtain ⟨hi, hj⟩ := Nat.max_le.1 (Nat.le_of_succ_le_succ hn)
    refine reads_statementOf_of_some (by unfold Rule.statementBehind; rw [hw]) ?_
    simp only [Parser.whileLoop, Parser.reads_bind, Parser.reads_condition he,
      Parser.reads_pure, hs.reads]
    exact ⟨c, ps ++ us, ⟨l, cs, i, r, by simp, hl, hc, hi, hr⟩, s, us,
      ⟨ps, j, d, rfl, hst, hj, hfree⟩, rfl, rfl⟩
  | @forLoop w l semi r is cs vs ps initial c u s i j k m _ hw hl hinit hcond
      hsemi hinc hr hst =>
    obtain ⟨hi, hn⟩ := Nat.max_le.1 (Nat.le_of_succ_le_succ hn)
    obtain ⟨hj, hn⟩ := Nat.max_le.1 hn
    obtain ⟨hk, hm⟩ := Nat.max_le.1 hn
    refine reads_statementOf_of_some (by unfold Rule.statementBehind; rw [hw]) ?_
    simp only [Parser.forLoop, Parser.reads_bind, Parser.reads_forClauses he,
      Parser.reads_pure, hs.reads]
    exact ⟨⟨initial, c, u⟩, ps ++ us, ⟨l, is, cs, semi, vs, r, i, j, k, by simp,
      hl, hinit, hcond, hsemi, hinc, hr, hi, hj, hk⟩, s, us,
      ⟨ps, m, d, rfl, hst, hm, hfree⟩,
      (loop_eq_forTree ⟨initial, c, u⟩ w.span s).symm, rfl⟩

end Statements

/-- The exactness of expressions, for the rule that statements are made of. -/
theorem expression_exact (b : Nat) :
    (Rule.expression b).Exact .expression b :=
  ⟨(levels_exact b).expression⟩

/-- **The parser reads exactly the statements of the grammar** that its budget
admits, by induction on the budget. -/
theorem statement_exact (b : Nat) : (Rule.statement b).ExactStatement b := by
  induction b with
  | zero =>
    refine ⟨⟨fun h => (Parser.reads_failHere h).elim, ?_⟩⟩
    rintro ⟨ps, n, d, -, hst, hn, -⟩
    cases hst <;> exact absurd hn (Nat.not_succ_le_zero _)
  | succ b ih =>
    refine ⟨⟨statement_of_reads (expression_exact b) ih, ?_⟩⟩
    rintro ⟨ps, n, d, rfl, hst, hn, hfree⟩
    exact reads_of_statement (expression_exact b) ih hst hn hfree

/-! ## Programs

A whole program is a sequence that nothing stops, at the full budget. -/

/-- The rule that reads the declarations of a program. -/
def topLevel : Rule Stmt :=
  .declaration (.expression nestingBudget) (.statement nestingBudget)

/-- Its rule is exact, as those for expressions and statements of this budget
are. -/
theorem topLevel_exact : topLevel.ExactDeclaration nestingBudget :=
  Rule.ExactStatement.declaration (expression_exact _) (statement_exact _)

theorem program_eq (s : TokenStream) :
    s.program = declarations (fun _ => false) topLevel s := rfl

/-- **A program goes on to its end**: nothing stops it on the way. -/
theorem rest_program_tokens (s : TokenStream) : s.program.rest.tokens = [] := by
  rw [program_eq, ← List.head?_eq_none_iff, Option.eq_none_iff_forall_ne_some]
  exact fun t ht => Bool.false_ne_true (stop_of_head_rest s t ht)

/-- **Reading a sequence of the grammar in front of other tokens** gives its
statements and leaves the others to be read as if they stood alone, unless they
begin with an `else`. -/
theorem program_append {ps us : List Token} {ss : List Stmt} {n : Nat}
    {z : Token} (h : Sequence ps ss n) (hn : n ≤ nestingBudget)
    (hus : ElseFree us) :
    (TokenStream.mk (ps ++ us) z).program
      = ⟨ss ++ (TokenStream.mk us z).program.statements,
        (TokenStream.mk us z).program.recorded,
        (TokenStream.mk us z).program.rest⟩ := by
  simp only [program_eq]
  exact declarations_append topLevel_exact
    (fun _ ht => absurd ht Bool.false_ne_true) h hn hus

/-- Without tokens there is nothing to read. -/
@[simp] theorem program_nil (z : Token) :
    (TokenStream.mk [] z).program = ⟨[], [], ⟨[], z⟩⟩ :=
  declarations_nil

/-- **A program is read without a fault exactly if it is a sequence of the
grammar**, and its statements are then the trees of the sequence. -/
theorem program_eq_iff {ts : List Token} {z : Token} {ss : List Stmt} :
    (TokenStream.mk ts z).program.statements = ss
        ∧ (TokenStream.mk ts z).program.recorded = []
      ↔ ∃ n, n ≤ nestingBudget ∧ Sequence ts ss n := by
  constructor
  · rintro ⟨rfl, hclean⟩
    obtain ⟨ps, n, hps, hseq, hn⟩ :=
      sequence_of_declarations topLevel_exact ⟨ts, z⟩ hclean
    rw [← program_eq, rest_program_tokens, List.append_nil] at hps
    obtain rfl : ts = ps := hps
    exact ⟨n, hn, hseq⟩
  · rintro ⟨n, hn, hseq⟩
    have happ := program_append (z := z) hseq hn (show ElseFree [] from nofun)
    rw [List.append_nil, program_nil, List.append_nil] at happ
    rw [happ]
    exact ⟨rfl, rfl⟩

/-- A token list without end-of-file token is read to its end, as if one stood
behind it. -/
theorem tokens_ofTokens {ts : List Token} (h : ∀ t ∈ ts, t.isEnd = false) :
    (TokenStream.ofTokens ts).tokens = ts := by
  have hall : ∀ t ∈ ts, (fun t : Token => !t.isEnd) t = true :=
    fun t ht => by simp [h t ht]
  have htake := @List.takeWhile_append_of_pos _ _ _ [] hall
  rwa [List.append_nil, List.takeWhile_nil, List.append_nil] at htake

/-- In front of other tokens, a token list without end-of-file token is read, and
then the others as they would be alone. -/
theorem ofTokens_append {ts us : List Token} (h : ∀ t ∈ ts, t.isEnd = false)
    (hus : us ≠ []) :
    TokenStream.ofTokens (ts ++ us)
      = ⟨ts ++ (TokenStream.ofTokens us).tokens,
        (TokenStream.ofTokens us).finish⟩ := by
  have hall : ∀ t ∈ ts, (fun t : Token => !t.isEnd) t = true :=
    fun t ht => by simp [h t ht]
  have hnone : ts.find? Token.isEnd = none := by simpa using h
  have hlast : (ts ++ us).getLast? = us.getLast? := by
    rw [List.getLast?_append, List.getLast?_eq_some_getLast hus]
    rfl
  simp only [TokenStream.ofTokens, List.takeWhile_append_of_pos hall,
    List.find?_append, hnone, Option.none_or, hlast]

/-- Of an end-of-file token alone nothing is read. -/
@[simp] theorem ofTokens_end {z : Token} (h : z.isEnd = true) :
    TokenStream.ofTokens [z] = ⟨[], z⟩ := by
  simp [TokenStream.ofTokens, h]

/-- The tokens of a list are parsed without an error exactly if the tokens in
front of its end are a sequence of the grammar. -/
theorem parse_eq_iff {ts : List Token} {ss : List Stmt} :
    parse ts = ⟨ss, []⟩
      ↔ ∃ n, n ≤ nestingBudget
        ∧ Sequence (TokenStream.ofTokens ts).tokens ss n := by
  rw [← program_eq_iff (z := (TokenStream.ofTokens ts).finish)]
  exact Iff.of_eq (Parse.mk.injEq _ _ _ _)

/-- **The parser accepts exactly its grammar.** Tokens without an end-of-file
token, and the same tokens with one behind them, are parsed into the statements
`ss` without an error exactly if they are the yield of a sequence of
declarations of the grammar, nested at most 64 deep, whose trees are `ss`. -/
theorem parse_eq_iff_sequence {ts : List Token}
    (h : ∀ t ∈ ts, t.isEnd = false) (ss : List Stmt) :
    (parse ts = ⟨ss, []⟩ ↔ ∃ n, n ≤ 64 ∧ Sequence ts ss n)
      ∧ ∀ z : Token, z.isEnd = true →
        (parse (ts ++ [z]) = ⟨ss, []⟩ ↔ ∃ n, n ≤ 64 ∧ Sequence ts ss n) := by
  constructor
  · rw [parse_eq_iff, tokens_ofTokens h]
    rfl
  · intro z hz
    rw [parse_eq_iff, ofTokens_append h (List.cons_ne_nil z []),
      ofTokens_end hz, List.append_nil]
    rfl

/-- A token of a kind, without a text and at no place. -/
def Token.ofKind (k : TokenKind) : Token := ⟨k, "", .unknown⟩

/-- The tokens of `if (a) if (a) a; else a;`. -/
def nestedIf : List Token :=
  [.keyword .ifKw, .punctuator .leftParen, .identifier,
    .punctuator .rightParen, .keyword .ifKw, .punctuator .leftParen,
    .identifier, .punctuator .rightParen, .identifier, .punctuator .semicolon,
    .keyword .elseKw, .identifier, .punctuator .semicolon].map .ofKind

/-- The `else` of two nested `if`s belongs to the inner one. -/
theorem sequence_nestedIf :
    (∀ t ∈ nestedIf, t.isEnd = false) ∧
      let a : Expr := .reference (.ofKind .identifier)
      let s : Stmt := .expression .unknown a
      ∃ n, n ≤ 64 ∧ Sequence nestedIf
        [.branch .unknown a (.branch .unknown a s (some s)) none] n :=
  ⟨by decide, (parse_eq_iff_sequence (by decide) _).1.1 (by cbv)⟩

end TreeScript
