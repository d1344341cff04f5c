import TreeScript.Proofs.Parser.Derived
import TreeScript.Proofs.Parser.Simulation

/-!
# The longest expression

A reader that is asked for an expression, at whatever depth it stands, takes a
derivation of the grammar if no token follows that could go on with it, and then
there is no longer one (`expression_longest`). The budget of the derivation is the
number of levels that the reader may still open.

What a reader takes is counted by its position, which stands among all tokens. The
parsers see the stream in front of the first end-of-file token instead. Derivations
have no end-of-file token, so both see the same ones (`Cursor.takes_iff`,
`stream_eq_append`).

The operators of a tree are those of its tokens, in the same order and at the same
places (`Grammar.Derives.operators_eq`).

That there is no longer expression is not seen by looking at trees. Two
expressions at the same place, one of them longer, would both be read from the
tokens of the longer one, and a parser has one answer
(`Grammar.Derives.length_le`).
-/

namespace TreeScript

open Grammar

/-! ## Operators of a tree

A tree keeps the places of its operators and a token has a place, so the two
lists below can be compared as they are. Parentheses and equal signs are kept in
another way, as kinds of nodes. -/

/-- **The operators of an expression** in the order in which they are written: the
place of each, and how it is spelled. -/
def Expr.operators : Expr → List (Span × String)
  | assign _ value => value.operators
  | binary op lhs rhs =>
    lhs.operators ++ (op.span, op.value.text) :: rhs.operators
  | grouping inner => inner.operators
  | literal _ => []
  | unary op operand => (op.span, op.value.text) :: operand.operators
  | reference _ => []

/-- The operator that a token of an expression is. Parentheses and the equal sign
of an assignment have no node of their own. -/
def Token.operator? (t : Token) : Option (Span × String) :=
  match t.kind with
  | .punctuator m =>
    if m ∈ [.leftParen, .rightParen, .equal] then none
    else some (t.span, m.text)
  | _ => none

namespace Token

variable {t : Token} {m : Punctuator}

/-- A binary operator of any level is one of the operators of a tree. -/
theorem operator?_of_binary {l : Precedence} {op : BinaryOp}
    (hm : t.kind = .punctuator m) (ho : l.operator? m = some op) :
    t.operator? = some (t.span, op.text) := by
  rw [operator?, hm]
  cases l <;> cases m <;> cases ho <;> rfl

/-- A minus may be a unary or a binary operator, and is spelled the same. -/
theorem operator?_of_unary {op : UnaryOp} (hm : t.kind = .punctuator m)
    (ho : unaryOperator? m = some op) :
    t.operator? = some (t.span, op.text) := by
  rw [operator?, hm]
  cases m <;> cases ho <;> rfl

theorem operator?_of_mem (hm : t.kind = .punctuator m)
    (h : m ∈ [.leftParen, .rightParen, .equal]) : t.operator? = none := by
  rw [operator?, hm]
  exact if_pos h

theorem operator?_of_identifier (h : t.kind = .identifier) :
    t.operator? = none := by
  rw [operator?, h]

theorem operator?_of_isLiteral (h : IsLiteral t.kind) : t.operator? = none := by
  rw [operator?]
  generalize t.kind = k at h
  cases h <;> rfl

end Token

/-- **The operators of a tree are those of its tokens**, in order and each at its
own place. -/
theorem Grammar.Derives.operators_eq {c : Category} {ts : List Token} {e : Expr}
    {n : Nat} (h : Derives c ts e n) :
    e.operators = ts.filterMap Token.operator? := by
  induction h with
  | expression _ ih | equality _ ih | operand _ ih | primary _ ih => exact ih
  | assign hname hequals _ ih =>
    rw [List.filterMap_cons_none (Token.operator?_of_identifier hname),
      List.filterMap_cons_none (Token.operator?_of_mem hequals (by simp)), ← ih]
    rfl
  | link _ hm ho _ ihl ihr =>
    rw [List.filterMap_append,
      List.filterMap_cons_some (Token.operator?_of_binary hm ho), ← ihl, ← ihr]
    rfl
  | unary hm ho _ ih =>
    rw [List.filterMap_cons_some (Token.operator?_of_unary hm ho), ← ih]
    rfl
  | literal ht =>
    rw [List.filterMap_cons_none (Token.operator?_of_isLiteral ht)]
    rfl
  | name ht =>
    rw [List.filterMap_cons_none (Token.operator?_of_identifier ht)]
    rfl
  | grouping hl _ hr ih =>
    rw [List.filterMap_cons_none (Token.operator?_of_mem hl (by simp)),
      List.filterMap_append, ← ih,
      List.filterMap_cons_none (Token.operator?_of_mem hr (by simp))]
    exact (List.append_nil _).symm

/-! ## Where an expression ends

What could go on with an expression is said by the grammar level by level. Here
it is one list of punctuators. -/

/-- **The punctuators that go on with an expression.** -/
def continuations : List Punctuator :=
  [.equal, .equalEqual, .bangEqual, .less, .lessEqual, .greater, .greaterEqual,
    .plus, .minus, .asterisk, .slash]

/-- They are the equal sign and the operators of all levels. -/
theorem mem_continuations_iff {m : Punctuator} :
    m ∈ continuations
      ↔ m = .equal
        ∨ ∃ (l : Precedence) (op : BinaryOp), l.operator? m = some op := by
  constructor
  · intro h
    cases m <;> first
      | exact .inl rfl
      | exact .inr ⟨.equality, _, rfl⟩
      | exact .inr ⟨.comparison, _, rfl⟩
      | exact .inr ⟨.term, _, rfl⟩
      | exact .inr ⟨.factor, _, rfl⟩
      | exact absurd h (by decide)
  · rintro (rfl | ⟨l, op, ho⟩)
    · decide
    · cases l <;> cases m <;> cases ho <;> decide

/-- A token goes on with an expression exactly if it is one of them. -/
theorem Grammar.Category.extends_expression_iff {t : Token} :
    expression.Extends t ↔ ∃ m ∈ continuations, t.kind = .punctuator m := by
  constructor
  · rintro (hequal | ⟨l, m, op, hm, ho⟩)
    · exact ⟨.equal, mem_continuations_iff.2 (.inl rfl), hequal⟩
    · exact ⟨m, mem_continuations_iff.2 (.inr ⟨l, op, ho⟩), hm⟩
  · rintro ⟨m, hmem, hm⟩
    rcases mem_continuations_iff.1 hmem with rfl | ⟨l, op, ho⟩
    · exact .inl hm
    · exact .inr ⟨l, m, op, hm, ho⟩

theorem Grammar.Category.ends_expression_iff {us : List Token} :
    expression.Ends us
      ↔ ∀ t ∈ us.head?, ∀ m ∈ continuations, t.kind ≠ .punctuator m := by
  simp only [Ends, extends_expression_iff, not_exists, not_and, Ne]

/-- **Behind an expression that nothing goes on with there is no longer one.** Both
would be read from the tokens of the longer one. -/
theorem Grammar.Derives.length_le {ps qs us : List Token} {e e' : Expr}
    {n n' : Nat} (h : Derives .expression ps e n)
    (hend : Category.expression.Ends us) (hd : Derives .expression qs e' n')
    (hqs : qs <+: ps ++ us) : qs.length ≤ ps.length := by
  by_contra hlt
  obtain ⟨rest, rfl⟩ : ps <+: qs :=
    List.prefix_of_prefix_length_le (List.prefix_append ps us) hqs
      (Nat.le_of_not_le hlt)
  have hne : rest ≠ [] := by
    rintro rfl
    exact hlt (by simp)
  have hrest : Category.expression.Ends rest := by
    obtain ⟨more, rfl⟩ := (List.prefix_append_right_inj ps).1 hqs
    intro t ht
    refine hend t ?_
    rw [List.head?_append, ht]
    rfl
  -- With a budget for both, the parser would give two answers to these tokens.
  have hexact := levels_exact (max n n')
  have hshort : (levels (max n n')).expression.parser.Reads
      (.endOfFile .unknown) (ps ++ rest) e rest :=
    hexact.expression.2 ⟨⟨ps, n, rfl, h, Nat.le_max_left n n'⟩, hrest⟩
  have hlong : (levels (max n n')).expression.parser.Reads
      (.endOfFile .unknown) (ps ++ rest) e' [] :=
    hexact.expression.2 ⟨⟨_, n', (List.append_nil _).symm, hd,
      Nat.le_max_right n n'⟩, Category.ends_nil _⟩
  exact hne (hlong.unique hshort).2

/-! ## Tokens that were taken

A reader counts what it took, and a parser leaves a suffix. Both say which
tokens were taken, once it is known that these stand in front of the end. -/

/-- No token of a derivation is the end of the text. -/
theorem Grammar.Derives.not_isEnd {c : Category} {ts : List Token} {e : Expr}
    {n : Nat} (h : Derives c ts e n) : ∀ t ∈ ts, t.isEnd = false := by
  have hkind {t : Token} {k : TokenKind} (ht : t.kind = k)
      (hk : k ≠ .endOfFile) : t.isEnd = false := by
    simpa [Token.isEnd, ht] using hk
  induction h with
  | expression _ ih | equality _ ih | operand _ ih | primary _ ih => exact ih
  | assign hname hequals _ ih =>
    exact List.forall_mem_cons.2 ⟨hkind hname (by simp),
      List.forall_mem_cons.2 ⟨hkind hequals (by simp), ih⟩⟩
  | link _ hm _ _ ihl ihr =>
    exact List.forall_mem_append.2 ⟨ihl,
      List.forall_mem_cons.2 ⟨hkind hm (by simp), ihr⟩⟩
  | unary hm _ _ ih => exact List.forall_mem_cons.2 ⟨hkind hm (by simp), ih⟩
  | literal ht =>
    refine List.forall_mem_singleton.2 (hkind rfl ?_)
    rintro heq
    rw [heq] at ht
    cases ht
  | name ht => exact List.forall_mem_singleton.2 (hkind ht (by simp))
  | grouping hl _ hr ih =>
    exact List.forall_mem_cons.2 ⟨hkind hl (by simp), List.forall_mem_append.2
      ⟨ih, List.forall_mem_singleton.2 (hkind hr (by simp))⟩⟩

/-- The end of the text does not go on with an expression, so it does not matter
whether one looks at the tokens or at the stream that ends in front of it. -/
theorem Grammar.Category.ends_takeWhile_iff {us : List Token} :
    expression.Ends (us.takeWhile (!Token.isEnd ·)) ↔ expression.Ends us := by
  cases us with
  | nil => exact Iff.rfl
  | cons t us =>
    cases ht : t.isEnd with
    | false => simp [ht]
    | true =>
      have hkind := Token.kind_of_isEnd ht
      simp [ht, extends_expression_iff, hkind]

namespace Cursor

/-- **The reader took these tokens** on its way to another state. -/
def Takes (c c' : Cursor) (ps : List Token) : Prop :=
  c'.position = c.position + ps.length ∧ ps <+: c.tokens.drop c.position

/-- The tokens that were taken are those that are gone from the stream. This
needs that the reader has moved over tokens of its stream only
(`Cursor.Reaches`). -/
theorem takes_iff {c c' : Cursor} {r : List ParseError} (h : c.Reaches c' r)
    (hsuffix : c'.stream.IsSuffix c.stream) {ps : List Token} :
    c.Takes c' ps ↔ c.stream.tokens = ps ++ c'.stream.tokens := by
  have hposition := h.position
  obtain ⟨qs, hsplit⟩ := hsuffix.1
  have hqs : qs <+: c.tokens.drop c.position :=
    .trans ⟨_, hsplit⟩ (List.takeWhile_prefix _)
  rw [← hsplit, List.length_append] at hposition
  constructor
  · rintro ⟨hlength, hps⟩
    have heq : ps.length = qs.length := by omega
    obtain rfl : ps = qs :=
      (List.prefix_of_prefix_length_le hps hqs heq.le).eq_of_length heq
    exact hsplit.symm
  · intro heq
    obtain rfl : qs = ps := List.append_cancel_right (hsplit.trans heq)
    exact ⟨by omega, hqs⟩

/-- A derivation at the position stands in front of the stream that it leaves. -/
theorem stream_eq_append {c : Cursor} {ps us : List Token}
    (hps : ∀ t ∈ ps, t.isEnd = false) (h : c.tokens.drop c.position = ps ++ us) :
    c.stream.tokens = ps ++ us.takeWhile (!Token.isEnd ·) := by
  have hpos : ∀ t ∈ ps, (!t.isEnd) = true := fun t ht => by rw [hps t ht]; rfl
  unfold stream
  rw [h, List.takeWhile_append_of_pos hpos]

end Cursor

/-- **What a rule reads from a stream** is a phrase that nothing goes on with.
The two halves of the exactness of expressions are joined in one equivalence. -/
theorem Rule.expression_ok_iff {b : Nat} {s : TokenStream} {e : Expr}
    {us : List Token} :
    ((Rule.expression b).parser.run s).outcome = .ok e
        ∧ ((Rule.expression b).parser.run s).rest.tokens = us
      ↔ Phrase .expression b s.tokens e us ∧ Category.expression.Ends us := by
  constructor
  · rintro ⟨hok, rfl⟩
    exact (levels_exact b).expression.1 ((Rule.quiet_expression b).reads hok)
  · intro h
    have hreads : (Rule.expression b).parser.run s
        = ⟨.ok e, [], ⟨us, s.finish⟩⟩ :=
      (levels_exact b).expression.2 h
    rw [hreads]
    exact ⟨rfl, rfl⟩

/-- **What a reader takes** if it agrees with a rule: a derivation at its position
that nothing goes on with. -/
theorem Cursor.Agrees.takes_iff {c : Cursor} {x : Except ParseError Expr × Cursor}
    {b : Nat} {e : Expr} {ps : List Token}
    (h : c.Agrees x ((Rule.expression b).parser.run c.stream)) :
    x.1 = .ok e ∧ c.Takes x.2 ps
      ↔ ∃ us n, c.tokens.drop c.position = ps ++ us
        ∧ Derives .expression ps e n ∧ n ≤ b ∧ Category.expression.Ends us := by
  have hsuffix : x.2.stream.IsSuffix c.stream := by
    rw [h.rest]
    exact Parser.rest_suffix _ _
  rw [Cursor.takes_iff h.reaches hsuffix, h.outcome, h.rest]
  constructor
  · rintro ⟨hok, htokens⟩
    obtain ⟨⟨qs, n, hqs, hd, hn⟩, hend⟩ := Rule.expression_ok_iff.1 ⟨hok, rfl⟩
    obtain rfl : qs = ps := List.append_cancel_right (hqs.symm.trans htokens)
    have hfront : qs <+: c.stream.tokens := ⟨_, hqs.symm⟩
    obtain ⟨us, hus⟩ := hfront.trans (List.takeWhile_prefix _)
    have hstream := Cursor.stream_eq_append hd.not_isEnd hus.symm
    rw [List.append_cancel_left (hqs.symm.trans hstream)] at hend
    exact ⟨us, n, hus.symm, hd, hn, Category.ends_takeWhile_iff.1 hend⟩
  · rintro ⟨us, n, hts, hd, hn, hend⟩
    have hstream := Cursor.stream_eq_append hd.not_isEnd hts
    obtain ⟨hok, hrest⟩ := Rule.expression_ok_iff.2
      ⟨⟨ps, n, hstream, hd, hn⟩, Category.ends_takeWhile_iff.2 hend⟩
    exact ⟨hok, hrest ▸ hstream⟩

/-- **An expression is read exactly if it is the longest one.** With fewer than 64
levels open, a call for an expression is answered as by the rule whose budget is
what is left of 64. It gives the tree `e` and takes the tokens `ps` if and only if
the tokens from the position on begin with `ps`, these are a derivation of `e`
within the budget, and the token behind them does not go on with an expression.
Then the operators of the tree are those of the tokens, each at its own place, and
no longer expression stands at the position. -/
theorem expression_longest (c : Cursor) (hdepth : c.depth < 64) (e : Expr)
    (ps : List Token) :
    let ts := c.tokens.drop c.position
    let x := Cursor.Call.expression.action c
    let reply := (Rule.expression (64 - c.depth)).parser.run c.stream
    (x.1 = reply.outcome ∧ x.2.stream = reply.rest)
    ∧ (x.1 = .ok e ∧ c.Takes x.2 ps
      ↔ ∃ us n, ts = ps ++ us ∧ Derives .expression ps e n ∧ n ≤ 64 - c.depth
        ∧ ∀ t ∈ us.head?, ∀ m ∈ continuations, t.kind ≠ .punctuator m)
    ∧ (x.1 = .ok e ∧ c.Takes x.2 ps →
      e.operators = ps.filterMap Token.operator?
        ∧ ∀ qs e' n, qs <+: ts → Derives .expression qs e' n →
          qs.length ≤ ps.length) := by
  intro ts x reply
  have hagrees : c.Agrees x reply :=
    Action.simulates_expression (Nat.sub_add_cancel hdepth.le)
      (Nat.lt_succ_of_le (Nat.sub_le _ _)) c rfl
  simp only [← Category.ends_expression_iff]
  refine ⟨⟨hagrees.outcome, hagrees.rest⟩, hagrees.takes_iff, fun h => ?_⟩
  obtain ⟨us, n, hts, hd, -, hend⟩ := hagrees.takes_iff.1 h
  refine ⟨hd.operators_eq, fun qs e' n' hqs hd' => ?_⟩
  exact hd.length_le hend hd' (hts ▸ hqs)

/-- The tokens of `a = - a * a` with a semicolon behind them, and three levels left
to open in front of them. -/
def lastLevels : Cursor where
  tokens := [.identifier, .punctuator .equal, .punctuator .minus, .identifier,
    .punctuator .asterisk, .identifier, .punctuator .semicolon].map .ofKind
  depth := 61

/-- The negation binds tighter than the product, and both stand on the right side of
the assignment. -/
theorem expression_longest_lastLevels :
    let a : Expr := .reference (.ofKind .identifier)
    (Cursor.Call.expression.action lastLevels).1
        = .ok (.assign (.ofKind .identifier)
          (.binary ⟨.unknown, .multiply⟩ (.unary ⟨.unknown, .negate⟩ a) a))
      ∧ lastLevels.Takes (Cursor.Call.expression.action lastLevels).2
        (lastLevels.tokens.take 6) := by
  intro a
  have hname : Derives .primary [.ofKind .identifier] a 0 := .name rfl
  have hnegated : Derives (.binary .factor)
      [.ofKind (.punctuator .minus), .ofKind .identifier]
      (.unary ⟨.unknown, .negate⟩ a) 1 :=
    .operand (.unary rfl rfl (.primary hname))
  have hproduct : Derives (.binary .factor) ((lastLevels.tokens.drop 2).take 4)
      (.binary ⟨.unknown, .multiply⟩ (.unary ⟨.unknown, .negate⟩ a) a) 1 :=
    .link hnegated rfl rfl (.primary hname)
  have hwhole : Derives .expression (lastLevels.tokens.take 6) _ 3 :=
    .expression (.assign rfl rfl (.expression (.equality
      (.operand (.operand (.operand hproduct))))))
  refine (expression_longest lastLevels (by decide) _ _).2.1.2
    ⟨[.ofKind (.punctuator .semicolon)], 3, rfl, hwhole, by decide, ?_⟩
  rintro _ ⟨⟩
  decide

end TreeScript
