import TreeScript.Proofs.Parser.Stmt

/-!
# Recovery from a malformed declaration

A malformed declaration is dropped together with the semicolon behind it, and
nothing else is lost. The argument is about what a parser does in front of a
semicolon, whatever follows it.

* Parsers of expressions and of what stands around them never take a semicolon.
  In front of one their answer does not depend on what follows, and they leave
  the semicolon (`Parser.Stays`).
* Parsers of whole statements fail in front of the semicolon, whatever follows,
  or take it as their last token if nothing follows (`Parser.Closes`). More
  cannot be said of the second case: a branch looks for an `else` behind its
  semicolon.

So a declaration that fails leaves a part of its own tokens and the semicolon,
and skipping ends right behind the semicolon (`resync_broken`).

In front of whatever is malformed, a text that follows the grammar is read as if
it stood alone, and so is what stands behind it (`parse_append_of_clean`).

To say that something does not depend on what follows, it is said for all that
may follow at once: `Parser.Runs` gives one answer for every continuation of a
list of tokens, and the statements about parsers are about lists that end in
front of a semicolon (`Window`). That they also say at which token a fault is
(`Parser.Meets`) costs little, and is part of what is claimed of the one error
of a malformed declaration (`parse_malformed`).

Two kinds of declarations are left out by the conditions on a malformed one. A
block has declarations of its own inside and recovers there, and the clauses of
a `for` loop have semicolons that end no declaration.
-/

namespace TreeScript

/-- Whether the token neither ends a statement nor begins one that is no
expression. -/
def Token.isPlain (t : Token) : Bool :=
  match t.kind with
  | .punctuator .semicolon | .punctuator .leftBrace | .keyword .letKw
  | .keyword .ifKw | .keyword .whileKw | .keyword .forKw
  | .keyword .printKw => false
  | _ => true

/-- **The tokens of a statement in front of its semicolon**, in a text all of
whose tokens satisfy `A`. Everything that happens to a malformed statement
happens in front of this semicolon. -/
structure Window (A : Token → Prop) (ds : List Token) (semi : Token) :
    Prop where
  /-- The statement ends with a semicolon. -/
  semicolon : semi.kind = .punctuator .semicolon
  /-- No other statement begins or ends in front of it. -/
  plain : ∀ d ∈ ds, d.isPlain = true
  /-- Where the tokens come from. -/
  allowed : ∀ d ∈ ds ++ [semi], A d

/-- A plain token is no semicolon, so the first semicolon behind plain tokens is
the one that the window ends with. -/
theorem Token.ne_semicolon_of_isPlain {t : Token} (h : t.isPlain = true) :
    t.kind ≠ .punctuator .semicolon := by
  intro hk
  rw [Token.isPlain, hk] at h
  cases h

/-- The condition in terms of the tokens that end or begin declarations, as it
stands in the statements about programs. -/
theorem Token.isPlain_of_not_starts {t : Token}
    (hsemi : t.kind ≠ .punctuator .semicolon)
    (hbrace : t.kind ≠ .punctuator .leftBrace)
    (hstart : t.startsDeclaration = false) : t.isPlain = true := by
  unfold Token.startsDeclaration at hstart
  unfold Token.isPlain
  split <;> rename_i hk
  · exact absurd hk hsemi
  · exact absurd hk hbrace
  all_goals first | rfl | (rw [hk] at hstart; cases hstart)

namespace Window

variable {A : Token → Prop} {ds ds' : List Token} {semi d : Token}

/-- A window remains one when tokens are taken from its front, which is what
parsers do. -/
theorem of_suffix (h : Window A ds semi) (hs : ds' <:+ ds) :
    Window A ds' semi where
  semicolon := h.semicolon
  plain d hd := h.plain d (hs.subset hd)
  allowed d hd := by
    refine h.allowed d ?_
    rcases List.mem_append.1 hd with hd | hd
    · exact List.mem_append_left _ (hs.subset hd)
    · exact List.mem_append_right _ hd

theorem tail (h : Window A (d :: ds) semi) : Window A ds semi :=
  h.of_suffix (List.suffix_cons d ds)

end Window

namespace Parser

variable {α β : Type} {A : Token → Prop} {P : α → Prop} {Q : β → Prop}
  {semi : Token} {ds ds' : List Token}

/-! ## Parsers that stay in front of a semicolon

A parser that stays has read some of the tokens in front of the semicolon and
knows no more than these. What it leaves is again a window, so the next parser
can go on from there. -/

/-- **What `p` does in front of a token**, whatever follows it: the answer `o`,
no fault recorded, and the tokens `ds'` left in front of the token. -/
def Runs (p : Parser α) (semi : Token) (ds : List Token)
    (o : Except ParseError α) (ds' : List Token) : Prop :=
  ∀ us z, p.run ⟨ds ++ semi :: us, z⟩ = ⟨o, [], ⟨ds' ++ semi :: us, z⟩⟩

/-- A sequence runs as its parts do, the second on what the first has left. -/
theorem Runs.bind {p : Parser α} {f : α → Parser β} {a : α}
    {o : Except ParseError β} {ds'' : List Token}
    (hp : p.Runs semi ds (.ok a) ds') (hf : (f a).Runs semi ds' o ds'') :
    (p >>= f).Runs semi ds o ds'' := by
  intro us z
  show ((p.run _).andThen fun a t => (f a).run t) = _
  rw [hp us z]
  simp only [Reply.andThen, hf us z, List.nil_append]

theorem Runs.bind_error {p : Parser α} {e : ParseError}
    (hp : p.Runs semi ds (.error e) ds') (f : α → Parser β) :
    (p >>= f).Runs semi ds (.error e) ds' := by
  intro us z
  show (p.run _).andThen _ = _
  rw [hp us z]
  rfl

section OnNext

variable {f : Token → Option (Parser α)} {p q : Parser α} {t : Token}
  {o : Except ParseError α}

/-- A choice that has a parser for the first token runs it behind that token. -/
theorem runs_onNext_some (hf : f t = some p) (hp : p.Runs semi ds o ds') :
    (onNext f q).Runs semi (t :: ds) o ds' := by
  intro us z
  have hsome : (t :: (ds ++ semi :: us)).head?.bind f = some p := hf
  simp only [onNext, List.cons_append, hsome]
  exact hp us z

/-- Without a parser for the next token, a choice runs its other parser. In
front of the semicolon itself, the next token is the semicolon. -/
theorem runs_onNext_none (hf : ∀ t ∈ (ds ++ [semi]).head?, f t = none)
    (hq : q.Runs semi ds o ds') : (onNext f q).Runs semi ds o ds' := by
  intro us z
  have hnone : (ds ++ semi :: us).head?.bind f = none := by
    cases ds with
    | nil => exact hf semi rfl
    | cons d ds => exact hf d rfl
  simp only [onNext, hnone]
  exact hq us z

end OnNext

/-- An answer that satisfies `P`, or a fault at a token that satisfies `A`. -/
def Meets (A : Token → Prop) (P : α → Prop) : Except ParseError α → Prop
  | .ok a => P a
  | .error e => A e.token

/-- **In front of a semicolon, `p` stays in front of it**, whatever follows:
its answer satisfies `P`, or it has a fault at one of the tokens up to the
semicolon. -/
def Stays (A : Token → Prop) (p : Parser α) (P : α → Prop) : Prop :=
  ∀ ds semi, Window A ds semi →
    ∃ o ds', ds' <:+ ds ∧ Meets A P o ∧ p.Runs semi ds o ds'

/-- An answer that is given at once does not look at the tokens. -/
theorem stays_pure {a : α} (h : P a) : (pure a : Parser α).Stays A P :=
  fun ds _ _ => ⟨.ok a, ds, List.suffix_refl ds, h, fun _ _ => rfl⟩

/-- A fault that is given at once speaks of a token that was taken before. -/
theorem stays_fail {e : ParseError} (h : A e.token) :
    (fail e : Parser α).Stays A P :=
  fun ds _ _ => ⟨.error e, ds, List.suffix_refl ds, h, fun _ _ => rfl⟩

/-- The next token of a window is the same whatever follows it: it is a token of
the window or its semicolon. -/
theorem runs_here (ds : List Token) (semi : Token) :
    here.Runs semi ds (.ok ((ds ++ [semi]).headD semi)) ds := by
  intro us z
  cases ds <;> rfl

theorem Window.head_allowed (h : Window A ds semi) :
    A ((ds ++ [semi]).headD semi) := by
  refine h.allowed _ ?_
  cases ds <;> simp

/-- Looking at the next token answers with such a token. -/
theorem stays_here : here.Stays A A :=
  fun ds semi h => ⟨.ok ((ds ++ [semi]).headD semi), ds, List.suffix_refl ds,
    Window.head_allowed h, runs_here ds semi⟩

/-- A fault at the next token is at a token of the window or at its semicolon. -/
theorem stays_failHere {f : Token → ParseError} (hf : ∀ t, (f t).token = t) :
    (failHere f : Parser α).Stays A P := by
  intro ds semi h
  refine ⟨.error (f ((ds ++ [semi]).headD semi)), ds, List.suffix_refl ds, ?_, ?_⟩
  · show A (f _).token
    rw [hf]
    exact Window.head_allowed h
  · intro us z
    cases ds <;> rfl

/-- **Parsers that stay do so in sequence.** Between the two, the window gets
shorter. -/
theorem Stays.bind {p : Parser α} {f : α → Parser β} (hp : p.Stays A P)
    (hf : ∀ a, P a → (f a).Stays A Q) : (p >>= f).Stays A Q := by
  intro ds semi h
  obtain ⟨o, ds', hs, ho, hr⟩ := hp ds semi h
  cases o with
  | error e => exact ⟨.error e, ds', hs, ho, hr.bind_error f⟩
  | ok a =>
    obtain ⟨o', ds'', hs', ho', hr'⟩ := hf a ho ds' semi (h.of_suffix hs)
    exact ⟨o', ds'', hs'.trans hs, ho', hr.bind hr'⟩

/-- **A choice by the next token stays** in front of a semicolon if it has no
parser for it and all its parsers stay. -/
theorem stays_onNext {f : Token → Option (Parser α)} {q : Parser α}
    (hsemi : ∀ t, t.kind = .punctuator .semicolon → f t = none)
    (hf : ∀ t p, A t → f t = some p → p.Stays A P) (hq : q.Stays A P) :
    (onNext f q).Stays A P := by
  intro ds semi h
  obtain ⟨o, ds', hs, ho, hr⟩ := hq ds semi h
  cases ds with
  | nil =>
    refine ⟨o, ds', hs, ho, runs_onNext_none ?_ hr⟩
    simpa using hsemi semi h.semicolon
  | cons d ds =>
    cases hd : f d with
    | none =>
      refine ⟨o, ds', hs, ho, runs_onNext_none ?_ hr⟩
      simpa using hd
    | some p =>
      have hA : A d := h.allowed d (List.mem_cons_self ..)
      obtain ⟨o', ds'', hs', ho', hr'⟩ := hf d p hA hd ds semi h.tail
      exact ⟨o', ds'', hs'.trans (List.suffix_cons d ds), ho',
        runs_onNext_some hd hr'⟩

/-- A punctuator other than a semicolon is taken if it is there, and otherwise
the fault is at the token that is there instead. -/
theorem stays_expect {m : Punctuator} (hm : m ≠ .semicolon) (context : String) :
    (expect m context).Stays A (fun _ => True) := by
  refine stays_onNext (fun t ht => if_neg ?_) (fun t p _ hp => ?_)
    (stays_failHere fun _ => rfl)
  · rw [ht]
    exact fun h => hm (TokenKind.punctuator.inj h).symm
  · obtain ⟨-, hp⟩ := Option.ite_none_right_eq_some.1 hp
    obtain rfl := Option.some.inj hp
    exact stays_pure trivial

/-- The token that is taken is handed on, and it is one of the window. -/
theorem stays_accept {m : Punctuator} (hm : m ≠ .semicolon) :
    (accept m).Stays A (∀ t ∈ ·, A t) := by
  refine stays_onNext (fun t ht => if_neg ?_) (fun t p hA hp => ?_)
    (stays_pure nofun)
  · rw [ht]
    exact fun h => hm (TokenKind.punctuator.inj h).symm
  · obtain ⟨-, hp⟩ := Option.ite_none_right_eq_some.1 hp
    obtain rfl := Option.some.inj hp
    exact stays_pure fun u hu => Option.some.inj hu ▸ hA

/-! ## Expressions stay

No rule for expressions takes a semicolon: none is an operator, and none begins
an operand. This is gone through here and not as a congruence, because it does
not hold of combinators as such; a choice stays only if it has no parser for a
semicolon. -/

/-- No operator is a semicolon, so a chain ends in front of one. -/
theorem find?_semicolon {table : OperatorTable} {t : Token}
    (htable : table.lookup .semicolon = none)
    (ht : t.kind = .punctuator .semicolon) : table.find? t = none := by
  unfold OperatorTable.find?
  rw [ht]
  simp only [htable, Option.map_none]

/-- What stands behind the first operand of a chain, as a parser. -/
def behindOperand (table : OperatorTable) (operand : Parser Expr)
    (lhs : Expr) : Parser Expr where
  run := chainTail table operand lhs
  rest_suffix := chainTail_rest_isSuffix table operand lhs

/-- The operators of a chain and their operands stay, by induction on the tokens
in front of the semicolon. The chain ends there at the latest. -/
theorem stays_behindOperand {table : OperatorTable} {operand : Parser Expr}
    (htable : table.lookup .semicolon = none)
    (ho : operand.Stays A (fun _ => True)) (lhs : Expr) :
    (behindOperand table operand lhs).Stays A (fun _ => True) := by
  intro ds semi h
  induction hlen : ds.length using Nat.strongRecOn generalizing ds lhs with
  | ind n ih =>
    by_cases hop : ∃ d es op, ds = d :: es ∧ table.find? d = some op
    · obtain ⟨d, es, op, rfl, hop⟩ := hop
      obtain ⟨o, es', hs, hmeets, hr⟩ := ho es semi h.tail
      have hsuffix := hs.trans (List.suffix_cons d es)
      have hstep {o ds'} (hr : (operand >>= fun rhs =>
          behindOperand table operand (.binary op lhs rhs)).Runs semi es o ds') :
          (behindOperand table operand lhs).Runs semi (d :: es) o ds' :=
        fun us z => (chainTail_of_some hop).trans (hr us z)
      cases o with
      | error e => exact ⟨.error e, es', hsuffix, hmeets, hstep (hr.bind_error _)⟩
      | ok rhs =>
        -- The operator itself makes what is left shorter.
        have hlt : es'.length < n := by
          rw [← hlen]
          exact Nat.lt_succ_of_le hs.length_le
        obtain ⟨o, ds', hs', hmeets', hr'⟩ :=
          ih es'.length hlt (.binary op lhs rhs) es' (h.tail.of_suffix hs) rfl
        exact ⟨o, ds', hs'.trans hsuffix, hmeets', hstep (hr.bind hr')⟩
    · refine ⟨.ok lhs, ds, List.suffix_refl ds, trivial, fun us z => ?_⟩
      refine chainTail_of_none fun t ht => ?_
      cases ds with
      | nil =>
        obtain rfl : semi = t := Option.some.inj ht
        exact find?_semicolon htable h.semicolon
      | cons d es =>
        obtain rfl : d = t := Option.some.inj ht
        exact Option.eq_none_iff_forall_ne_some.2
          fun op hd => hop ⟨d, es, op, rfl, hd⟩

theorem Stays.chain {table : OperatorTable} {operand : Parser Expr}
    (htable : table.lookup .semicolon = none)
    (ho : operand.Stays A (fun _ => True)) :
    (operand.chain table).Stays A (fun _ => True) :=
  show (operand >>= behindOperand table operand).Stays A _ from
    ho.bind fun lhs _ => stays_behindOperand htable ho lhs

end Parser

namespace Levels

variable {A : Token → Prop} {inner : Levels}

/-- Both rules for expressions stay in front of a semicolon. -/
structure Stay (A : Token → Prop) (l : Levels) : Prop where
  /-- A whole expression. -/
  expression : l.expression.parser.Stays A (fun _ => True)
  /-- The operand of a unary operator. -/
  operand : l.operand.parser.Stays A (fun _ => True)

/-- **How an operand goes on behind its first token.** It ends there, or one more
operand follows, or an expression and a parenthesis. -/
theorem operandBehind_cases {P : Parser Expr → Prop}
    (ends : ∀ e, P (pure e))
    (operand : ∀ f : Expr → Expr, P (do return f (← inner.operand.parser)))
    (grouping : P do
      let e ← inner.expression.parser
      Parser.expect .rightParen "after expression"
      return .grouping e)
    {t : Token} {p : Parser Expr} (h : operandBehind inner t = some p) : P p := by
  unfold operandBehind primaryBehind at h
  split at h
  · exact Option.some.inj h ▸ operand _
  · exact Option.some.inj h ▸ operand _
  split at h
  · exact Option.some.inj h ▸ ends _
  split at h
  · exact Option.some.inj h ▸ ends _
  · exact Option.some.inj h ▸ grouping
  · cases h

/-- Operands stay, as no operand begins with a semicolon. -/
theorem stays_unary (h : inner.Stay A) :
    inner.unary.parser.Stays A (fun _ => True) := by
  refine Parser.stays_onNext (fun t ht => ?_) (fun t p _ => ?_)
    (Parser.stays_failHere fun _ => rfl)
  · unfold operandBehind primaryBehind
    rw [ht]
    rfl
  refine operandBehind_cases (P := (Parser.Stays A · fun _ => True))
    (fun e => Parser.stays_pure trivial) (fun f => ?_) ?_
  · exact h.operand.bind fun _ _ => Parser.stays_pure trivial
  · exact h.expression.bind fun _ _ => (Parser.stays_expect (by decide) _).bind
      fun _ _ => Parser.stays_pure trivial

/-- An assignment stays. Its one fault is at the equal sign, which is a token of
the window and has been handed on since it was taken. -/
theorem stays_assignment (h : inner.Stay A) :
    inner.assignment.parser.Stays A (fun _ => True) := by
  have hc : inner.comparison.parser.Stays A (fun _ => True) :=
    .chain rfl (.chain rfl (.chain rfl (.chain rfl (stays_unary h))))
  refine hc.bind fun target _ => (Parser.stays_accept (by decide)).bind ?_
  intro o ho
  cases o with
  | none => exact Parser.stays_pure trivial
  | some equals =>
    refine h.expression.bind fun value _ => ?_
    -- A target that cannot be assigned to is reported at the equal sign.
    show (assignTo target equals value).Stays A _
    unfold assignTo
    split
    · exact Parser.stays_pure trivial
    · exact Parser.stays_fail (ho equals rfl)

end Levels

/-- **Expressions stay in front of a semicolon**, by induction on the budget. -/
theorem levels_stay {A : Token → Prop} (b : Nat) : (levels b).Stay A := by
  induction b with
  | zero =>
    exact ⟨Parser.stays_failHere fun _ => rfl, Parser.stays_failHere fun _ => rfl⟩
  | succ b ih => exact ⟨Levels.stays_assignment ih, Levels.stays_unary ih⟩

/-- What statements use of this is about whole expressions. -/
theorem stays_expression {A : Token → Prop} (b : Nat) :
    (Rule.expression b).parser.Stays A (fun _ => True) :=
  (levels_stay b).expression

/-! ## Statements close with their semicolon

Statements take the semicolon, so they do not stay. What can be said in its
place has two cases, and the second is only about texts that end there. -/

namespace Parser

variable {α β : Type} {A : Token → Prop} {P : α → Prop} {semi t : Token}
  {ds : List Token}

/-- **`p` fails in front of the semicolon**, whatever follows, at one of the
tokens up to the semicolon. -/
def Breaks (A : Token → Prop) (p : Parser α) (ds : List Token) (semi : Token) :
    Prop :=
  ∃ e ds', ds' <:+ ds ∧ A e.token ∧ p.Runs semi ds (.error e) ds'

/-- `p` fails in front of the semicolon, whatever follows, or reads up to the
semicolon if nothing follows. -/
def Settles (A : Token → Prop) (p : Parser α) (ds : List Token)
    (semi : Token) : Prop :=
  p.Breaks A ds semi ∨ ∃ a, ∀ z, p.Reads z (ds ++ [semi]) a []

/-- **`p` settles at every semicolon** that ends a statement. So a sequence of
declarations finds its way behind a statement, be it well-formed or not. -/
def Closes (A : Token → Prop) (p : Parser α) : Prop :=
  ∀ ds semi, Window A ds semi → p.Settles A ds semi

/-- Behind a parser that stays, a sequence settles as its second part does, as
what is left is a window again. -/
theorem Runs.settles {p : Parser α} {f : α → Parser β} {a : α}
    {ds' : List Token} (hr : p.Runs semi ds (.ok a) ds') (hs : ds' <:+ ds)
    (h : (f a).Settles A ds' semi) : (p >>= f).Settles A ds semi := by
  refine h.imp ?_ ?_
  · rintro ⟨e, ds'', hs', hA, hr'⟩
    exact ⟨e, ds'', hs'.trans hs, hA, hr.bind hr'⟩
  · rintro ⟨b, hb⟩
    exact ⟨b, fun z => reads_bind.2 ⟨a, ds' ++ [semi], hr [] z, hb z⟩⟩

/-- An expression, or a condition, may stand in front of what closes. -/
theorem Stays.closes {p : Parser α} {f : α → Parser β} (hp : p.Stays A P)
    (hf : ∀ a, P a → (f a).Closes A) : (p >>= f).Closes A := by
  intro ds semi h
  obtain ⟨o, ds', hs, ho, hr⟩ := hp ds semi h
  cases o with
  | error e => exact .inl ⟨e, ds', hs, ho, hr.bind_error f⟩
  | ok a => exact hr.settles hs (hf a ho ds' semi (h.of_suffix hs))

/-- What comes behind the semicolon only has to succeed on nothing. -/
theorem Closes.bind {p : Parser α} {f : α → Parser β} (hp : p.Closes A)
    (hf : ∀ a, ∃ b, ∀ z, (f a).Reads z [] b []) : (p >>= f).Closes A := by
  intro ds semi h
  refine (hp ds semi h).imp ?_ ?_
  · rintro ⟨e, ds', hs, hA, hr⟩
    exact ⟨e, ds', hs, hA, hr.bind_error f⟩
  · rintro ⟨a, ha⟩
    obtain ⟨b, hb⟩ := hf a
    exact ⟨b, fun z => reads_bind.2 ⟨a, [], ha z, hb z⟩⟩

theorem Closes.map {p : Parser α} (hp : p.Closes A) (g : α → β) :
    (p >>= fun a => pure (g a)).Closes A :=
  hp.bind fun a => ⟨g a, fun _ => reads_pure.2 ⟨rfl, rfl⟩⟩

/-- The semicolon of a statement is taken if nothing is in front of it any more.
Otherwise the fault is at the first token that is in the way. -/
theorem closes_semicolon (context : String) :
    (expect .semicolon context).Closes A := by
  intro ds semi h
  cases ds with
  | nil => exact .inr ⟨(), fun z => reads_expect.2 ⟨semi, h.semicolon, rfl⟩⟩
  | cons d ds =>
    have hd := Token.ne_semicolon_of_isPlain (h.plain d (List.mem_cons_self ..))
    refine .inl ⟨.expectedPunctuator .semicolon context d, d :: ds,
      List.suffix_refl _, h.allowed d (List.mem_cons_self ..), ?_⟩
    refine runs_onNext_none ?_ fun us z => rfl
    rintro t ht
    obtain rfl : d = t := Option.some.inj ht
    exact if_neg hd

section OnNext

variable {f : Token → Option (Parser α)} {p q : Parser α}

/-- A choice that has a parser for the first token settles as this parser
does. -/
theorem settles_onNext (hf : f t = some p) (h : p.Settles A ds semi) :
    (onNext f q).Settles A (t :: ds) semi := by
  refine h.imp ?_ ?_
  · rintro ⟨e, ds', hs, hA, hr⟩
    exact ⟨e, ds', hs.trans (List.suffix_cons t ds), hA, runs_onNext_some hf hr⟩
  · rintro ⟨a, ha⟩
    exact ⟨a, fun z => (reads_onNext_some hf).2 (ha z)⟩

/-- A choice that has no parser for the first token settles as its other parser
does. -/
theorem settles_otherwise (hf : ∀ t ∈ (ds ++ [semi]).head?, f t = none)
    (h : q.Settles A ds semi) : (onNext f q).Settles A ds semi := by
  refine h.imp ?_ ?_
  · rintro ⟨e, ds', hs, hA, hr⟩
    exact ⟨e, ds', hs, hA, runs_onNext_none hf hr⟩
  · rintro ⟨a, ha⟩
    exact ⟨a, fun z => reads_onNext.2 (.inr ⟨hf, ha z⟩)⟩

/-- A choice that has no parser for any token of a window. It runs its other
parser wherever in the window it begins. -/
theorem closes_onNext (hplain : ∀ t, t.isPlain = true → f t = none)
    (hsemi : ∀ t, t.kind = .punctuator .semicolon → f t = none)
    (hq : q.Closes A) : (onNext f q).Closes A := by
  intro ds semi h
  refine settles_otherwise (fun t ht => ?_) (hq ds semi h)
  cases ds with
  | nil =>
    obtain rfl : semi = t := Option.some.inj ht
    exact hsemi semi h.semicolon
  | cons d ds =>
    obtain rfl : d = t := Option.some.inj ht
    exact hplain d (h.plain d (List.mem_cons_self ..))

end OnNext

/-- A parser that always fails closes. This is the rule for a budget that is
used up. -/
theorem Stays.closes_of_fails {p : Parser α} (h : p.Stays A (fun _ => False)) :
    p.Closes A := by
  intro ds semi hw
  obtain ⟨o, ds', hs, ho, hr⟩ := h ds semi hw
  cases o with
  | error e => exact .inl ⟨e, ds', hs, ho, hr⟩
  | ok a => exact ho.elim

variable {expression : Rule Expr} {statement : Rule Stmt}

theorem closes_terminated (he : expression.parser.Stays A (fun _ => True))
    (context : String) : (terminated expression context).Closes A :=
  he.closes fun _ _ => (closes_semicolon context).map _

theorem closes_expressionStatement
    (he : expression.parser.Stays A (fun _ => True)) :
    (expressionStatement expression).Closes A :=
  stays_here.closes fun _ _ => (closes_terminated he _).map _

theorem closes_definition (he : expression.parser.Stays A (fun _ => True))
    (span : Span) : (definition expression span).Closes A := by
  have hname : variableName.Stays A (fun _ => True) := by
    refine stays_onNext (fun t ht => ?_) (fun t p _ hp => ?_)
      (stays_failHere fun _ => rfl)
    · rw [ht]
      rfl
    · obtain ⟨-, hp⟩ := Option.ite_none_right_eq_some.1 hp
      obtain rfl := Option.some.inj hp
      exact stays_pure trivial
  have hvalue : (initialValue expression).Stays A (fun _ => True) := by
    refine (stays_accept (by decide)).bind fun o _ => ?_
    cases o with
    | none => exact stays_pure trivial
    | some _ => exact he.bind fun _ _ => stays_pure trivial
  exact hname.closes fun _ _ => hvalue.closes fun _ _ =>
    (closes_semicolon _).map _

/-- A condition stays, as both of its parentheses and its expression do. -/
theorem stays_condition (he : expression.parser.Stays A (fun _ => True))
    (opening closing : String) :
    (condition expression opening closing).Stays A (fun _ => True) :=
  (stays_expect (by decide) opening).bind fun _ _ => he.bind fun _ _ =>
    (stays_expect (by decide) closing).bind fun _ _ => stays_pure trivial

theorem closes_whileLoop (he : expression.parser.Stays A (fun _ => True))
    (hs : statement.parser.Closes A) (span : Span) :
    (whileLoop expression statement span).Closes A :=
  (stays_condition he _ _).closes fun _ _ => hs.map _

/-- A branch closes as the statement in it does. Behind its semicolon it looks
for an `else`, and if nothing follows there is none. -/
theorem closes_branch (he : expression.parser.Stays A (fun _ => True))
    (hs : statement.parser.Closes A) (span : Span) :
    (branch expression statement span).Closes A := by
  refine (stays_condition he _ _).closes fun c _ => hs.bind fun t => ?_
  refine ⟨.branch span c t none, fun z => reads_bind.2 ⟨none, [], ?_, ?_⟩⟩
  · exact reads_alternative.2 (.inr ⟨rfl, rfl, nofun⟩)
  · exact reads_pure.2 ⟨rfl, rfl⟩

end Parser

section TopLevel

variable {A : Token → Prop} {semi t : Token} {ds ds' : List Token}

theorem Token.statementBehind_of_isPlain {expression : Rule Expr}
    {statement : Rule Stmt} (h : t.isPlain = true) :
    Rule.statementBehind expression statement t = none := by
  unfold Token.isPlain at h
  unfold Rule.statementBehind
  split <;> first | rfl | (rename_i hk; rw [hk] at h; cases h)

/-- In a window every statement is an expression with a semicolon, as no token
in it begins another one. So no induction on the budget is needed. -/
theorem closes_statement (b : Nat) : (Rule.statement b).parser.Closes A := by
  cases b with
  | zero => exact (Parser.stays_failHere fun _ => rfl).closes_of_fails
  | succ b =>
    refine Parser.closes_onNext (fun t => Token.statementBehind_of_isPlain) ?_
      (Parser.closes_expressionStatement (stays_expression b))
    intro t ht
    unfold Rule.statementBehind
    rw [ht]

/-- Declarations behind a window: no token of it begins a definition. -/
theorem closes_topLevel : topLevel.parser.Closes A := by
  refine Parser.closes_onNext (fun t ht => if_neg fun hk => ?_)
    (fun t ht => if_neg ?_) (closes_statement nestingBudget)
  · rw [Token.isPlain, hk] at ht
    cases ht
  · rw [ht]
    exact nofun

/-- **The first word decides how a statement is read**, and what is read in
this way settles at the semicolon. Only a `for` loop has semicolons inside, and
only a block has statements. -/
theorem settles_statement (b : Nat) (h : Window A ds semi) (hA : A t)
    (hsemi : t.kind ≠ .punctuator .semicolon)
    (hbrace : t.kind ≠ .punctuator .leftBrace)
    (hfor : t.kind ≠ .keyword .forKw) (hlet : t.kind ≠ .keyword .letKw) :
    (Rule.statement (b + 1)).parser.Settles A (t :: ds) semi := by
  have hbehind {p : Parser Stmt} (hp : p.Closes A)
      (ht : Rule.statementBehind (.expression b) (.statement b) t = some p) :
      (Rule.statement (b + 1)).parser.Settles A (t :: ds) semi :=
    Parser.settles_onNext ht (hp ds semi h)
  have hclosed := closes_statement (A := A) b
  have he := stays_expression (A := A) b
  by_cases hplain : t.isPlain = true
  · refine closes_statement (b + 1) (t :: ds) semi ⟨h.semicolon, ?_, ?_⟩
    · exact List.forall_mem_cons.2 ⟨hplain, h.plain⟩
    · exact List.forall_mem_cons.2 ⟨hA, h.allowed⟩
  unfold Token.isPlain at hplain
  split at hplain <;> rename_i hk
  · exact absurd hk hsemi
  · exact absurd hk hbrace
  · exact absurd hk hlet
  · refine hbehind (Parser.closes_branch he hclosed t.span) ?_
    rw [Rule.statementBehind, hk]
  · refine hbehind (Parser.closes_whileLoop he hclosed t.span) ?_
    rw [Rule.statementBehind, hk]
  · exact absurd hk hfor
  · refine hbehind ((Parser.closes_terminated he "after value").map
      (Stmt.print t.span)) ?_
    rw [Rule.statementBehind, hk]
  · exact absurd rfl hplain

/-- The first token of a declaration need not be plain. If it begins a
definition, the rest is a window, and otherwise the declaration is a statement.
-/
theorem settles_topLevel (h : Window A ds semi) (hA : A t)
    (hsemi : t.kind ≠ .punctuator .semicolon)
    (hbrace : t.kind ≠ .punctuator .leftBrace)
    (hfor : t.kind ≠ .keyword .forKw) :
    topLevel.parser.Settles A (t :: ds) semi := by
  by_cases hlet : t.kind = .keyword .letKw
  · exact Parser.settles_onNext (if_pos hlet)
      (Parser.closes_definition (stays_expression _) t.span ds semi h)
  · exact Parser.settles_otherwise (by simpa using hlet)
      (settles_statement 63 h hA hsemi hbrace hfor hlet)

/-! ## Skipping

Where a declaration failed is known only so far as it is in front of the
semicolon. Skipping makes up for that: it stops at the semicolon from wherever
it begins. -/

/-- Tokens that neither begin a declaration nor end one are skipped, and the
semicolon behind them. -/
theorem skipDeclaration_append {us : List Token}
    (hsemi : semi.kind = .punctuator .semicolon)
    (h : ∀ d ∈ ds, d.startsDeclaration = false ∧ d.isSemicolon = false) :
    skipDeclaration (ds ++ semi :: us) = us := by
  induction ds with
  | nil =>
    have hstart : semi.startsDeclaration = false := by
      rw [Token.startsDeclaration, hsemi]
    have hend : semi.isSemicolon = true := by simp [Token.isSemicolon, hsemi]
    simp [skipDeclaration, hstart, hend]
  | cons d ds ih =>
    obtain ⟨hd, hds⟩ := List.forall_mem_cons.1 h
    rw [List.cons_append, skipDeclaration, hd.1, hd.2]
    exact ih hds

/-- **Recovery ends right behind the semicolon**, wherever in front of it the
declaration failed: the first token of a declaration is dropped if none was
taken, and behind it no other declaration begins. -/
theorem resync_broken (us : List Token) (z : Token) (hs : ds' <:+ ds)
    (hsemi : semi.kind = .punctuator .semicolon)
    (hds : ∀ d ∈ ds, d.isSemicolon = false)
    (htail : ∀ d ∈ ds.tail, d.startsDeclaration = false) :
    resync ⟨ds ++ semi :: us, z⟩ ⟨ds' ++ semi :: us, z⟩ = ⟨us, z⟩ := by
  have hskip {es : List Token} (hes : es <:+ ds.tail) :
      skipDeclaration (es ++ semi :: us) = us := by
    refine skipDeclaration_append hsemi fun d hd => ⟨htail d (hes.subset hd), ?_⟩
    exact hds d (List.mem_of_mem_tail (hes.subset hd))
  unfold resync
  by_cases hlen : ds'.length = ds.length
  · -- No token was taken: the first one goes, whatever it is.
    obtain rfl := hs.eq_of_length hlen
    rw [if_pos rfl]
    cases ds' with
    | nil => simp [Token.isSemicolon, hsemi]
    | cons d ds =>
      have hd := hds d (List.mem_cons_self ..)
      have hrest : skipDeclaration (ds ++ semi :: us) = us :=
        hskip (List.suffix_refl _)
      simp [hd, hrest]
  · -- Some were taken, and what is left lies behind the first token.
    rw [if_neg (by simpa using hlen)]
    cases ds with
    | nil => exact absurd (congrArg List.length (List.suffix_nil.1 hs)) hlen
    | cons d ds =>
      rcases List.suffix_cons_iff.1 hs with rfl | hs
      · exact absurd rfl hlen
      · simp [hskip hs]

/-- **A declaration that breaks is dropped** with its semicolon, and reading
goes on behind it. Since the declaration breaks in the same way whatever
follows, one fault serves for all that may follow. -/
theorem program_of_breaks (h : topLevel.parser.Breaks A ds semi)
    (hsemi : semi.kind = .punctuator .semicolon)
    (hds : ∀ d ∈ ds, d.isSemicolon = false)
    (htail : ∀ d ∈ ds.tail, d.startsDeclaration = false) :
    ∃ e : ParseError, A e.token ∧ ∀ us z,
      (TokenStream.mk (ds ++ semi :: us) z).program
        = ⟨(TokenStream.mk us z).program.statements,
          e :: (TokenStream.mk us z).program.recorded,
          (TokenStream.mk us z).program.rest⟩ := by
  obtain ⟨e, ds', hs, hA, hr⟩ := h
  refine ⟨e, hA, fun us z => ?_⟩
  have hrun := hr us z
  have hresync := resync_broken us z hs hsemi hds htail
  obtain ⟨t, ts, hts⟩ :=
    List.exists_cons_of_ne_nil (show ds ++ semi :: us ≠ [] by simp)
  simp only [program_eq]
  rw [hts] at hrun hresync ⊢
  rw [declarations_of_error rfl hrun, hresync, List.nil_append]

end TopLevel

/-! ## Programs behind a clean text

Two texts are joined here, and the second may be anything. That the first is
read as before is due to the grammar; that the second is read as if it stood
alone is due to the loop over declarations, which keeps nothing from one round
to the next. -/

/-- Behind tokens without an end-of-file token, others are read as if they stood
alone. The end-of-file token that is put behind a list without one does not
matter, as nothing is read from an empty list. -/
theorem parse_append {ts : List Token} (h : ∀ t ∈ ts, t.isEnd = false)
    (us : List Token) :
    ∃ z, TokenStream.ofTokens (ts ++ us)
        = ⟨ts ++ (TokenStream.ofTokens us).tokens, z⟩
      ∧ parse us
        = ⟨(TokenStream.mk (TokenStream.ofTokens us).tokens z).program.statements,
          (TokenStream.mk (TokenStream.ofTokens us).tokens z).program.recorded⟩ := by
  cases us with
  | nil =>
    refine ⟨(TokenStream.ofTokens ts).finish, ?_, ?_⟩
    · show _ = TokenStream.mk (ts ++ []) _
      rw [List.append_nil]
      exact congrArg (TokenStream.mk · _) (tokens_ofTokens h)
    · unfold parse
      show Parse.mk (TokenStream.mk [] _).program.statements
        (TokenStream.mk [] _).program.recorded = Parse.mk
          (TokenStream.mk [] _).program.statements
          (TokenStream.mk [] _).program.recorded
      rw [program_nil, program_nil]
  | cons u us => exact ⟨_, ofTokens_append h (List.cons_ne_nil u us), rfl⟩

/-- What is read of some tokens begins as they do: an end-of-file token at their
front is no `else` either. -/
theorem ElseFree.ofTokens {us : List Token} (h : ElseFree us) :
    ElseFree (TokenStream.ofTokens us).tokens := by
  intro t ht
  refine h t ?_
  obtain ⟨rest, hrest⟩ := List.takeWhile_prefix (l := us) (!Token.isEnd ·)
  rw [← hrest, List.head?_append, show (us.takeWhile _).head? = some t from ht]
  rfl

/-- **Reading is compositional behind a clean text.** Let `ps` be read without an
error. Then whatever stands behind it is read as if it stood alone, however
malformed it is, unless it begins with an `else`: `ps` leaves no statement
open. -/
theorem parse_append_of_clean {ps qs : List Token}
    (hps : ∀ t ∈ ps, t.isEnd = false) (hclean : (parse ps).errors = [])
    (hqs : ElseFree qs) :
    parse (ps ++ qs)
      = ⟨(parse ps).statements ++ (parse qs).statements,
        (parse qs).errors⟩ := by
  have hps' : parse ps = ⟨(parse ps).statements, []⟩ := by rw [← hclean]
  obtain ⟨n, hn, hseq⟩ := parse_eq_iff.1 hps'
  rw [tokens_ofTokens hps] at hseq
  obtain ⟨z, hz, hread⟩ := parse_append hps qs
  rw [hread]
  show Parse.mk (TokenStream.ofTokens _).program.statements
    (TokenStream.ofTokens _).program.recorded = _
  rw [hz, program_append hseq hn hqs.ofTokens]

/-- The tokens of `if (a) a;`, a branch that an `else` could still follow. -/
def openBranch : List Token :=
  [.keyword .ifKw, .punctuator .leftParen, .identifier, .punctuator .rightParen,
    .identifier, .punctuator .semicolon].map .ofKind

/-- The tokens of `) ; a ;`, which begin with a malformed declaration. -/
def strayParen : List Token :=
  [.punctuator .rightParen, .punctuator .semicolon, .identifier,
    .punctuator .semicolon].map .ofKind

/-- Malformed tokens behind a branch do not reach into it. -/
theorem parse_openBranch_strayParen :
    let a : Expr := .reference (.ofKind .identifier)
    (∀ t ∈ openBranch, t.isEnd = false)
    ∧ (parse openBranch).errors = []
    ∧ ElseFree strayParen
    ∧ (parse strayParen).statements.length = 1
    ∧ (parse strayParen).errors.length = 1
    ∧ parse (openBranch ++ strayParen)
      = ⟨.branch .unknown a (.expression .unknown a) none
          :: (parse strayParen).statements, (parse strayParen).errors⟩ := by
  intro a
  have hopen : parse openBranch
      = ⟨[.branch .unknown a (.expression .unknown a) none], []⟩ := by
    cbv
  have hfree : ElseFree strayParen := by
    show ∀ t ∈ strayParen.head?, t.kind ≠ .keyword .elseKw
    decide
  have happend := @parse_append_of_clean openBranch strayParen
    (by decide) (by rw [hopen]) hfree
  rw [hopen] at happend
  exact ⟨by decide, by rw [hopen], hfree, by decide +kernel, by decide +kernel,
    happend⟩

/-! ## Programs with a malformed declaration

The malformed declaration is given by a list that is not accepted on its own
with its semicolon. That it breaks in front of anything is what has to be seen.
-/

/-- A semicolon is no end-of-file token, so a declaration with its semicolon has
none. -/
theorem isEnd_of_semicolon {ds : List Token} {semi : Token}
    (hsemi : semi.kind = .punctuator .semicolon)
    (hds : ∀ t ∈ ds, t.isEnd = false) : ∀ t ∈ ds ++ [semi], t.isEnd = false := by
  refine List.forall_mem_append.2 ⟨hds, fun t ht => ?_⟩
  rw [List.mem_singleton.1 ht, Token.isEnd, hsemi]
  rfl

/-- What is read up to its semicolon is no malformed declaration. So of the two
cases in which a declaration settles, this one is excluded. -/
theorem errors_eq_nil_of_reads {ds : List Token} {semi : Token} {s : Stmt}
    (hend : ∀ t ∈ ds ++ [semi], t.isEnd = false)
    (h : ∀ z, topLevel.parser.Reads z (ds ++ [semi]) s []) :
    (parse (ds ++ [semi])).errors = [] := by
  obtain ⟨z, hz, -⟩ := parse_append hend []
  obtain ⟨t, ts, hts⟩ :=
    List.exists_cons_of_ne_nil (show ds ++ [semi] ≠ [] by simp)
  have hr := h z
  have hempty : (TokenStream.ofTokens []).tokens = [] := rfl
  rw [List.append_nil, hempty, List.append_nil] at hz
  show (TokenStream.ofTokens (ds ++ [semi])).program.recorded = []
  rw [hz, program_eq]
  rw [hts] at hr ⊢
  rw [declarations_of_ok rfl hr, declarations_nil]
  rfl

/-- **A malformed declaration breaks** in front of its semicolon, whatever
follows it: it settles there, and not by being read. -/
theorem breaks_of_errors {ds : List Token} {semi : Token}
    (hsemi : semi.kind = .punctuator .semicolon)
    (hds : ∀ t ∈ ds, t.kind ≠ .punctuator .semicolon
      ∧ t.kind ≠ .punctuator .leftBrace ∧ t.isEnd = false)
    (hfor : ∀ t ∈ ds.head?, t.kind ≠ .keyword .forKw)
    (htail : ∀ t ∈ ds.tail, t.startsDeclaration = false)
    (hbad : (parse (ds ++ [semi])).errors ≠ []) :
    topLevel.parser.Breaks (· ∈ ds ++ [semi]) ds semi := by
  have hsettles : topLevel.parser.Settles (· ∈ ds ++ [semi]) ds semi := by
    cases ds with
    | nil => exact closes_topLevel [] semi ⟨hsemi, nofun, fun _ h => h⟩
    | cons d ds =>
      obtain ⟨hd, hds⟩ := List.forall_mem_cons.1 hds
      refine settles_topLevel ⟨hsemi, fun t ht => ?_, fun t ht => ?_⟩
        (List.mem_cons_self ..) hd.1 hd.2.1 (hfor d rfl)
      · exact Token.isPlain_of_not_starts (hds t ht).1 (hds t ht).2.1 (htail t ht)
      · exact List.mem_cons_of_mem d ht
  refine hsettles.resolve_right fun ⟨s, hs⟩ => hbad ?_
  exact errors_eq_nil_of_reads
    (isEnd_of_semicolon hsemi fun t ht => (hds t ht).2.2) hs

/-- **Recovery loses only the malformed declaration.** Let `ps` be read without
an error, and let a declaration `ds` be malformed that ends with the first
semicolon and has no block in it, and in which no other declaration begins.
Then what stands in front of it and behind it is read as if it stood alone, and
there is one error more, at a token of the declaration or at its semicolon. -/
theorem parse_malformed {ps ds qs : List Token} {semi : Token}
    (hps : ∀ t ∈ ps, t.isEnd = false) (hclean : (parse ps).errors = [])
    (hsemi : semi.kind = .punctuator .semicolon)
    (hds : ∀ t ∈ ds, t.kind ≠ .punctuator .semicolon
      ∧ t.kind ≠ .punctuator .leftBrace ∧ t.isEnd = false)
    (hhead : ∀ t ∈ ds.head?, t.kind ≠ .keyword .elseKw
      ∧ t.kind ≠ .keyword .forKw)
    (htail : ∀ t ∈ ds.tail, t.startsDeclaration = false)
    (hbad : (parse (ds ++ [semi])).errors ≠ []) :
    ∃ e : ParseError, e.token ∈ ds ++ [semi]
      ∧ parse (ps ++ ds ++ [semi] ++ qs)
        = ⟨(parse ps).statements ++ (parse qs).statements,
          e :: (parse qs).errors⟩ := by
  have hseq : parse ps = ⟨(parse ps).statements, []⟩ := by rw [← hclean]
  obtain ⟨n, hn, hseq⟩ := parse_eq_iff.1 hseq
  rw [tokens_ofTokens hps] at hseq
  have hbreaks :=
    breaks_of_errors hsemi hds (fun t ht => (hhead t ht).2) htail hbad
  obtain ⟨e, he, hprogram⟩ := program_of_breaks hbreaks hsemi
    (fun t ht => by simp [Token.isSemicolon, (hds t ht).1]) htail
  refine ⟨e, he, ?_⟩
  have hfront : ∀ t ∈ ps ++ (ds ++ [semi]), t.isEnd = false :=
    List.forall_mem_append.2
      ⟨hps, isEnd_of_semicolon hsemi fun t ht => (hds t ht).2.2⟩
  -- The tokens that stand in front of `qs` are taken as one text without an
  -- end.
  obtain ⟨z, hz, hqs⟩ := parse_append hfront qs
  have hfree (us : List Token) : ElseFree (ds ++ semi :: us) := by
    cases ds with
    | nil =>
      intro t ht
      rw [← Option.some.inj ht, hsemi]
      exact nofun
    | cons d ds => exact fun t ht => (hhead t ht).1
  rw [List.append_assoc ps, hqs]
  show Parse.mk (TokenStream.ofTokens _).program.statements
    (TokenStream.ofTokens _).program.recorded = _
  rw [hz, List.append_assoc, List.append_assoc ds, List.singleton_append,
    program_append hseq hn (hfree _), hprogram]

/-- The tokens of `print a;`. -/
def printName : List Token :=
  [.keyword .printKw, .identifier, .punctuator .semicolon].map .ofKind

/-- The tokens of `let = a`, a definition without a name. -/
def namelessLet : List Token :=
  [.keyword .letKw, .punctuator .equal, .identifier].map .ofKind

/-- Both statements around a definition without a name are read. -/
theorem parse_namelessLet :
    let semi : Token := .ofKind (.punctuator .semicolon)
    let s : Stmt := .print .unknown (.reference (.ofKind .identifier))
    ∃ e : ParseError, e.token ∈ namelessLet ++ [semi]
      ∧ parse (printName ++ namelessLet ++ [semi] ++ printName)
        = ⟨[s, s], [e]⟩ := by
  have hprint : parse printName
      = ⟨[.print .unknown (.reference (.ofKind .identifier))], []⟩ := by cbv
  obtain ⟨e, he, hp⟩ := @parse_malformed printName namelessLet printName
    (.ofKind (.punctuator .semicolon)) (by decide) (by rw [hprint]) rfl
    (by decide) (by decide) (by decide) (by decide +kernel)
  rw [hprint] at hp
  exact ⟨e, he, hp⟩

end TreeScript
