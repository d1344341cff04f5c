import TreeScript.Parser.Expr
import TreeScript.Proofs.Grammar
import TreeScript.Proofs.Parser.Reads

/-!
# Reading expressions follows the grammar

The parser for expressions reads exactly the phrases of the grammar, and always
the longest one: what it leaves does not begin with a token that could go on
with the expression (`Category.Ends`). The main statement is `levels_exact`.

The grammar is loose where the parser is not: a phrase may be followed by
anything, whereas the parser takes operators as long as there are any. The two
meet because no token extends phrases of two levels at once, so that a chain of
operators ends for the parser exactly where the next looser level needs it to
end.

Both directions are in one statement (`Rule.Exact`): what is read is a phrase
behind which its category ends, and such a phrase is read. The second half would
be false without the condition on what follows, and the first half gives it back
to the caller, who needs it to see where its own phrase ends.

A chain is where parser and grammar differ most. The grammar is recursive on the
left and the parser loops with an accumulator, so neither half is an induction
on the tree. What was read is put together by induction on the tokens that are
left (`Rule.Exact.phrase_of_tailReads`), and a derivation is read by induction
on the derivation, with the rest of a longer chain behind it
(`Rule.Exact.reads_chain_append`).
-/

namespace TreeScript

open Grammar

/-! ## Tokens of the grammar

The grammar names the operators of a level by a function on punctuators, and the
parser looks them up in a table. Here the two are the same. -/

/-- The table the parser uses at a level. -/
def Grammar.Precedence.table : Precedence → OperatorTable
  | equality => .equality
  | comparison => .relation
  | term => .sum
  | factor => .product

/-- The token is a binary operator of the level. -/
def Grammar.Precedence.Operates (l : Precedence) (t : Token) : Prop :=
  ∃ m op, t.kind = .punctuator m ∧ l.operator? m = some op

/-- The tables of the parser hold the operators of the grammar, level by level.
-/
theorem Grammar.Precedence.lookup_table (l : Precedence) (m : Punctuator) :
    l.table.lookup m = l.operator? m := by
  cases l <;> cases m <;> rfl

/-- For a token that is a punctuator this says which operator the parser takes
it for. -/
theorem Grammar.Precedence.find?_table {l : Precedence} {t : Token} {m : Punctuator}
    (h : t.kind = .punctuator m) :
    l.table.find? t = (l.operator? m).map (⟨t.span, ·⟩) := by
  unfold OperatorTable.find?
  rw [h, ← l.lookup_table m]

/-- The parser leaves a chain exactly where no operator of its level comes next.
-/
theorem Grammar.Precedence.find?_eq_none_iff {l : Precedence} {t : Token} :
    l.table.find? t = none ↔ ¬ l.Operates t := by
  cases hk : t.kind with
  | punctuator m =>
    rw [find?_table hk]
    cases ho : l.operator? m <;> simp [Operates, hk, ho]
  | _ => simp [OperatorTable.find?, Operates, hk]

/-- The literals of the grammar are the tokens that the parser makes literals
of. -/
theorem Grammar.isLiteral_iff {k : TokenKind} : k.isLiteral ↔ IsLiteral k := by
  constructor
  · intro h
    cases k with
    | number => exact .number
    | string => exact .string
    | keyword w =>
      cases w with
      | trueKw => exact .true
      | falseKw => exact .false
      | nilKw => exact .nil
      | _ => cases h
    | _ => cases h
  · rintro (_ | _) <;> rfl

/-! ## Where phrases end

What makes a phrase the longest one is that its next token does not go on with
it. Which tokens do is determined by the category: an operator of its level or a
tighter one, and for an assignment an equal sign as well. -/

/-- **The token could go on with a phrase** of the category. -/
def Grammar.Category.Extends : Category → Token → Prop
  | expression, t | assignment, t =>
    t.kind = .punctuator .equal ∨ ∃ l : Precedence, l.Operates t
  | binary l, t => ∃ k : Precedence, l.rank ≤ k.rank ∧ k.Operates t
  | unary, _ | primary, _ => False

/-- What follows does not go on with a phrase of the category. -/
def Grammar.Category.Ends (c : Category) (us : List Token) : Prop :=
  ∀ t ∈ us.head?, ¬ c.Extends t

/-- Nothing follows at the end. -/
@[simp] theorem Grammar.Category.ends_nil (c : Category) : c.Ends [] :=
  nofun

/-- Only the first of the tokens that follow counts. -/
@[simp] theorem Grammar.Category.ends_cons {c : Category} {t : Token}
    {us : List Token} : c.Ends (t :: us) ↔ ¬ c.Extends t := by
  simp [Ends]

/-- No punctuator is an operator of two levels. -/
theorem Grammar.Precedence.eq_of_operator? {l k : Precedence} {m : Punctuator}
    (h : l.operator? m ≠ none) (h' : k.operator? m ≠ none) : l = k := by
  cases l <;> cases k <;>
    first
    | rfl
    | cases m <;> first | exact absurd rfl h | exact absurd rfl h'

/-- A token is an operator of at most one level, so it is never in question
which chain it belongs to. -/
theorem Grammar.Precedence.Operates.eq {l k : Precedence} {t : Token}
    (h : l.Operates t) (h' : k.Operates t) : l = k := by
  obtain ⟨m, op, hm, ho⟩ := h
  obtain ⟨m', op', hm', ho'⟩ := h'
  obtain rfl := TokenKind.punctuator.inj (hm.symm.trans hm')
  exact eq_of_operator? (ho ▸ Option.some_ne_none op)
    (ho' ▸ Option.some_ne_none op')

/-- A chain of a level is extended by the operators of the level and by what
extends its operands. -/
theorem Grammar.Category.extends_binary_iff {l : Precedence} {t : Token} :
    (binary l).Extends t ↔ l.Operates t ∨ l.operand.Extends t := by
  constructor
  · rintro ⟨k, hle, hk⟩
    by_cases h : l = k
    · exact .inl (h ▸ hk)
    · refine .inr ?_
      cases l <;> cases k <;>
        first
        | exact absurd rfl h
        | exact absurd hle (by decide)
        | exact ⟨_, by decide, hk⟩
  · rintro (h | h)
    · exact ⟨l, Nat.le_refl _, h⟩
    · cases l with
      | factor => exact h.elim
      | _ =>
        obtain ⟨k, hle, hk⟩ := h
        exact ⟨k, Nat.le_of_succ_le hle, hk⟩

/-- A chain ends where its operands end and no operator of its level comes
next. -/
theorem Grammar.Category.ends_binary_iff {l : Precedence} {us : List Token} :
    (binary l).Ends us
      ↔ l.operand.Ends us ∧ ∀ t ∈ us.head?, ¬ l.Operates t := by
  cases us with
  | nil => simp
  | cons t us => simp [extends_binary_iff, and_comm]

/-- An operator of a level ends the operand in front of it: what would go on
with the operand is an operator of a tighter level. -/
theorem Grammar.Precedence.Operates.not_extends {l : Precedence} {t : Token}
    (h : l.Operates t) : ¬ l.operand.Extends t := by
  intro he
  cases l with
  | factor => exact he
  | _ =>
    obtain ⟨k, hle, hk⟩ := he
    obtain rfl := h.eq hk
    exact absurd hle (by decide)

/-- Nothing extends an assignment but an equal sign and what extends a
comparison. -/
theorem Grammar.Category.ends_assignment_iff {us : List Token} :
    assignment.Ends us
      ↔ (binary .equality).Ends us
        ∧ ∀ t ∈ us.head?, t.kind ≠ .punctuator .equal := by
  cases us with
  | nil => simp
  | cons t us =>
    simp [Extends, Precedence.rank, and_comm]

/-- An equal sign is no binary operator, so the left side of an assignment ends
in front of it. -/
theorem Grammar.Category.ends_of_equal {l : Precedence} {t : Token}
    {us : List Token} (h : t.kind = .punctuator .equal) :
    (binary l).Ends (t :: us) := by
  rw [ends_cons]
  rintro ⟨k, -, m, op, hm, ho⟩
  obtain rfl := TokenKind.punctuator.inj (h.symm.trans hm)
  cases k <;> cases ho

/-- A semicolon or a closing parenthesis ends an expression. These are the two
tokens that statements and parentheses have behind an expression. -/
theorem Grammar.Category.ends_of_closing {m : Punctuator} {t : Token}
    {us : List Token} (h : t.kind = .punctuator m)
    (hm : m = .semicolon ∨ m = .rightParen) : expression.Ends (t :: us) := by
  rw [ends_cons]
  rintro (hk | ⟨l, m', op, hk, ho⟩)
  · obtain rfl := TokenKind.punctuator.inj (h.symm.trans hk)
    cases hm <;> contradiction
  · obtain rfl := TokenKind.punctuator.inj (h.symm.trans hk)
    rcases hm with rfl | rfl <;> cases l <;> cases ho

/-- **A phrase of category `c` stands in front**: its tree is `e`, it nests at
most `b` deep, and `us` is what stands behind it. -/
def Grammar.Phrase (c : Category) (b : Nat) (ts : List Token) (e : Expr)
    (us : List Token) : Prop :=
  ∃ ps n, ts = ps ++ us ∧ Derives c ps e n ∧ n ≤ b

/-! ## Operands

What an operand is read as is decided by its first token, and the grammar has
one case for each kind of first token as well. -/

/-- **The rules read what the grammar of nesting `b` derives.** An operand nests
one level deeper than where it stands. -/
structure Levels.Exact (inner : Levels) (b : Nat) : Prop where
  /-- Whole expressions. -/
  expression {z : Token} {ts : List Token} {e : Expr} {us : List Token} :
    inner.expression.parser.Reads z ts e us
      ↔ Phrase .expression b ts e us ∧ Category.expression.Ends us
  /-- Operands of unary operators. -/
  operand {z : Token} {ts : List Token} {e : Expr} {us : List Token} :
    inner.operand.parser.Reads z ts e us
      ↔ ∃ ps n, ts = ps ++ us ∧ Derives .unary ps e n ∧ n < b

namespace Levels

variable {inner : Levels} {b : Nat} {z : Token} {ts us : List Token} {e : Expr}

/-- An operator in front of an operand is found by the grammar's own function. -/
theorem operandBehind_unary {t : Token} {m : Punctuator} {op : UnaryOp}
    (hm : t.kind = .punctuator m) (hop : unaryOperator? m = some op) :
    operandBehind inner t
      = some (do return .unary ⟨t.span, op⟩ (← inner.operand.parser)) := by
  unfold operandBehind
  rw [hm]
  cases m <;> cases hop <;> rfl

/-- A literal is an operand on its own. -/
theorem operandBehind_literal {t : Token} (h : IsLiteral t.kind) :
    operandBehind inner t = some (pure (.literal t)) := by
  have hl := isLiteral_iff.2 h
  unfold operandBehind primaryBehind
  rw [if_pos hl]
  split
  · rename_i hk
    rw [hk] at h
    cases h
  · rename_i hk
    rw [hk] at h
    cases h
  · rfl

theorem operandBehind_name {t : Token} (h : t.kind = .identifier) :
    operandBehind inner t = some (pure (.reference t)) := by
  unfold operandBehind primaryBehind
  rw [h]
  rfl

/-- A parenthesis opens an expression that another one has to close. -/
theorem operandBehind_grouping {t : Token} (h : t.kind = .punctuator .leftParen) :
    operandBehind inner t = some (do
      let e ← inner.expression.parser
      Parser.expect .rightParen "after expression"
      return .grouping e) := by
  unfold operandBehind primaryBehind
  rw [h]
  rfl

/-- No other token begins an operand. Statements use this: their first words are
none of these. -/
theorem begins_of_operandBehind {t : Token} {p : Parser Expr}
    (h : operandBehind inner t = some p) : BeginsExpression t.kind := by
  unfold operandBehind primaryBehind at h
  split at h
  · rename_i hk
    exact hk ▸ .unary rfl
  · rename_i hk
    exact hk ▸ .unary rfl
  split at h
  · rename_i hl
    exact .literal (isLiteral_iff.1 hl)
  split at h
  · rename_i hk
    exact hk ▸ .identifier
  · rename_i hk
    exact hk ▸ .leftParen
  · cases h

/-- An operand that has been read is a phrase of the grammar. What its own first
token adds to the nesting is in the budget: an operator and a parenthesis take
one level. -/
theorem phrase_of_operandBehind (h : inner.Exact b) {t : Token}
    {p : Parser Expr} (hp : operandBehind inner t = some p)
    (hr : p.Reads z ts e us) : Phrase .unary b (t :: ts) e us := by
  have hbegin := begins_of_operandBehind hp
  generalize hk : t.kind = k at hbegin
  cases hbegin with
  | literal hl =>
    subst hk
    obtain rfl := Option.some.inj (hp.symm.trans (operandBehind_literal hl))
    obtain ⟨rfl, rfl⟩ := Parser.reads_pure.1 hr
    exact ⟨[t], 0, rfl, .primary (.literal hl), Nat.zero_le b⟩
  | identifier =>
    obtain rfl := Option.some.inj (hp.symm.trans (operandBehind_name hk))
    obtain ⟨rfl, rfl⟩ := Parser.reads_pure.1 hr
    exact ⟨[t], 0, rfl, .primary (.name hk), Nat.zero_le b⟩
  | leftParen =>
    obtain rfl := Option.some.inj (hp.symm.trans (operandBehind_grouping hk))
    simp only [Parser.reads_bind, Parser.reads_expect, Parser.reads_pure,
      h.expression] at hr
    obtain ⟨e, _, ⟨⟨ps, n, rfl, hd, hn⟩, -⟩, _, _, ⟨r, hr, rfl⟩, rfl, rfl⟩ := hr
    exact ⟨t :: (ps ++ [r]), n, by simp, .primary (.grouping hk hd hr), hn⟩
  | unary hop =>
    obtain rfl := Option.some.inj (hp.symm.trans (operandBehind_unary hk hop))
    simp only [Parser.reads_bind, Parser.reads_pure, h.operand] at hr
    obtain ⟨e, _, ⟨ps, n, rfl, hd, hn⟩, rfl, rfl⟩ := hr
    exact ⟨t :: ps, n + 1, rfl, .unary hk hop hd, hn⟩

/-- A primary expression of the grammar is read. It may be followed by anything,
since nothing goes on with it. -/
theorem reads_of_primary (h : inner.Exact b) {ps : List Token} {n : Nat}
    (hd : Derives .primary ps e n) (hn : n ≤ b) :
    inner.unary.parser.Reads z (ps ++ us) e us := by
  cases hd with
  | literal hl =>
    exact (Parser.reads_onNext_some (operandBehind_literal hl)).2
      (Parser.reads_pure.2 ⟨rfl, rfl⟩)
  | name hk =>
    exact (Parser.reads_onNext_some (operandBehind_name hk)).2
      (Parser.reads_pure.2 ⟨rfl, rfl⟩)
  | @grouping l r ts e n hl hd hr =>
    refine (Parser.reads_onNext_some (operandBehind_grouping hl)).2 ?_
    simp only [Parser.reads_bind, Parser.reads_expect, Parser.reads_pure,
      h.expression]
    have hend : Category.expression.Ends (r :: us) :=
      Category.ends_of_closing hr (.inr rfl)
    exact ⟨e, r :: us, ⟨⟨ts, n, by simp, hd, hn⟩, hend⟩, (), us, ⟨r, hr, rfl⟩,
      rfl, rfl⟩

/-- **Operands are read as the grammar says.** -/
theorem reads_unary (h : inner.Exact b) :
    inner.unary.parser.Reads z ts e us ↔ Phrase .unary b ts e us := by
  constructor
  · intro hr
    rcases Parser.reads_onNext.1 hr with ⟨t, vs, p, rfl, hp, hr⟩ | ⟨-, hr⟩
    · exact phrase_of_operandBehind h hp hr
    · exact (Parser.reads_failHere hr).elim
  · rintro ⟨ps, n, rfl, hd, hn⟩
    cases hd with
    | primary hd => exact reads_of_primary h hd hn
    | unary hm hop hd =>
      refine (Parser.reads_onNext_some (operandBehind_unary hm hop)).2 ?_
      simp only [Parser.reads_bind, Parser.reads_pure, h.operand]
      exact ⟨_, us, ⟨_, _, rfl, hd, hn⟩, rfl, rfl⟩

end Levels

/-! ## Chains

What is read behind the first operand depends on it only through the tree that
is built, so it is spoken about with the tree so far as a parameter
(`TailReads`). -/

namespace Parser

variable {table : OperatorTable} {operand : Parser Expr} {z : Token}
  {ts us : List Token} {lhs e : Expr}

/-- The rest of a chain is read without a fault. -/
def TailReads (table : OperatorTable) (operand : Parser Expr) (z : Token)
    (lhs : Expr) (ts : List Token) (e : Expr) (us : List Token) : Prop :=
  chainTail table operand lhs ⟨ts, z⟩ = ⟨.ok e, [], ⟨us, z⟩⟩

/-- A chain is read by reading an operand and then what stands behind it. -/
theorem reads_chain :
    (operand.chain table).Reads z ts e us
      ↔ ∃ lhs vs, operand.Reads z ts lhs vs
        ∧ TailReads table operand z lhs vs e us :=
  operand.andThen_eq_iff (chainTail table operand)

/-- Without an operator in front the chain is at its end. -/
theorem chainTail_of_none (h : ∀ t ∈ ts.head?, table.find? t = none) :
    chainTail table operand lhs ⟨ts, z⟩ = ⟨.ok lhs, [], ⟨ts, z⟩⟩ := by
  rw [chainTail]
  split
  · rfl
  · rename_i t vs hts
    obtain rfl : ts = t :: vs := hts
    rw [h t rfl]

/-- Behind an operator comes an operand, and the chain goes on from there. -/
theorem chainTail_of_some {t : Token} {op : Located BinaryOp}
    (h : table.find? t = some op) :
    chainTail table operand lhs ⟨t :: ts, z⟩
      = (operand.run ⟨ts, z⟩).andThen
          (fun rhs => chainTail table operand (.binary op lhs rhs)) := by
  rw [chainTail]
  split
  · rename_i hts
    cases hts
  · rename_i t' ts' hts
    obtain ⟨rfl, rfl⟩ := List.cons.inj hts
    rw [h]
    unfold Reply.andThen TokenStream.tail
    dsimp only [List.tail_cons]
    split <;> rename_i ho <;> rw [ho]

/-- Without an operator in front, what was read so far is the chain. -/
theorem tailReads_of_none (h : ∀ t ∈ ts.head?, table.find? t = none) :
    TailReads table operand z lhs ts e us ↔ e = lhs ∧ us = ts := by
  unfold TailReads
  rw [chainTail_of_none h]
  simp [eq_comm]

/-- With one, an operand is read and the chain goes on with a larger tree. -/
theorem tailReads_of_some {t : Token} {op : Located BinaryOp}
    (h : table.find? t = some op) :
    TailReads table operand z lhs (t :: ts) e us
      ↔ ∃ rhs vs, operand.Reads z ts rhs vs
        ∧ TailReads table operand z (.binary op lhs rhs) vs e us := by
  unfold TailReads
  rw [chainTail_of_some h]
  exact operand.andThen_eq_iff _

end Parser

/-- The rule reads what the category derives, up to where its phrases end. The
nesting of the phrase is bounded by the budget, which is all that the budget
matters. -/
structure Rule.Exact (r : Rule Expr) (c : Category) (b : Nat) : Prop where
  /-- What it reads. -/
  reads {z : Token} {ts : List Token} {e : Expr} {us : List Token} :
    r.parser.Reads z ts e us ↔ Phrase c b ts e us ∧ c.Ends us

section Chain

variable {l : Precedence} {operand : Rule Expr} {b : Nat} {z : Token}
  {ts us : List Token} {lhs e : Expr}

/-- **What is read behind a chain makes it a longer chain**, which ends where the
level ends. The induction is on what is left to read. -/
theorem Rule.Exact.phrase_of_tailReads (h : operand.Exact l.operand b)
    {ps : List Token} {n : Nat} (hd : Derives (.binary l) ps lhs n)
    (hn : n ≤ b) (hend : l.operand.Ends ts)
    (hr : Parser.TailReads l.table operand.parser z lhs ts e us) :
    Phrase (.binary l) b (ps ++ ts) e us ∧ (Category.binary l).Ends us := by
  induction hlen : ts.length using Nat.strongRecOn generalizing ts ps lhs n with
  | ind k ih =>
    by_cases hop : ∃ t us, ts = t :: us ∧ l.Operates t
    · obtain ⟨t, ts, rfl, m, op, hm, ho⟩ := hop
      have hfind : l.table.find? t = some ⟨t.span, op⟩ := by
        rw [Precedence.find?_table hm, ho]
        rfl
      obtain ⟨rhs, vs, hrhs, htail⟩ := (Parser.tailReads_of_some hfind).1 hr
      obtain ⟨⟨qs, i, rfl, hqs, hi⟩, hvs⟩ := h.reads.1 hrhs
      have hlt : vs.length < k := by
        rw [← hlen, List.length_cons, List.length_append]
        omega
      have hmore := ih _ hlt (.link hd hm ho hqs) (Nat.max_le.2 ⟨hn, hi⟩) hvs
        htail rfl
      rwa [List.append_assoc, List.cons_append] at hmore
    · have hno : ∀ t ∈ ts.head?, ¬ l.Operates t := by
        intro t ht hop'
        obtain ⟨us, rfl⟩ := List.head?_eq_some_iff.1 ht
        exact hop ⟨t, us, rfl, hop'⟩
      obtain ⟨rfl, rfl⟩ := (Parser.tailReads_of_none
        (fun t ht => Precedence.find?_eq_none_iff.2 (hno t ht))).1 hr
      exact ⟨⟨ps, n, rfl, hd, hn⟩, Category.ends_binary_iff.2 ⟨hend, hno⟩⟩

/-- **A chain of the grammar is read as a chain**, and what remains is the rest
of the chain behind it. The induction is on the derivation, which grows to the
left as the parser's accumulator does. -/
theorem Rule.Exact.reads_chain_append (h : operand.Exact l.operand b)
    {ps : List Token} {n : Nat} (hd : Derives (.binary l) ps lhs n)
    (hn : n ≤ b) (hend : l.operand.Ends ts) :
    (Rule.chain l.table operand).parser.Reads z (ps ++ ts) e us
      ↔ Parser.TailReads l.table operand.parser z lhs ts e us := by
  generalize hc : Category.binary l = c at hd
  induction hd generalizing ts with
  | @operand l' ps lhs n hd =>
    cases hc
    have hread : operand.parser.Reads z (ps ++ ts) lhs ts :=
      h.reads.2 ⟨⟨ps, n, rfl, hd, hn⟩, hend⟩
    refine Parser.reads_chain.trans ⟨?_, fun ht => ⟨lhs, ts, hread, ht⟩⟩
    rintro ⟨lhs', vs, hr, ht⟩
    obtain ⟨rfl, rfl⟩ := hread.unique hr
    exact ht
  | @link l' m op t ps qs lhs rhs i j hd hm ho hq ih =>
    cases hc
    obtain ⟨hi, hj⟩ := Nat.max_le.1 hn
    have hread : operand.parser.Reads z (qs ++ ts) rhs ts :=
      h.reads.2 ⟨⟨qs, j, rfl, hq, hj⟩, hend⟩
    have hfind : l.table.find? t = some ⟨t.span, op⟩ := by
      rw [Precedence.find?_table hm, ho]
      rfl
    have ht : l.operand.Ends (t :: (qs ++ ts)) :=
      Category.ends_cons.2 (Precedence.Operates.not_extends ⟨m, op, hm, ho⟩)
    rw [List.append_assoc, List.cons_append, ih hi ht rfl,
      Parser.tailReads_of_some hfind]
    refine ⟨?_, fun htail => ⟨rhs, ts, hread, htail⟩⟩
    rintro ⟨rhs', vs, hr, htail⟩
    obtain ⟨rfl, rfl⟩ := hread.unique hr
    exact htail
  | _ => cases hc

/-- **Chains are read as the grammar says**, if their operands are. -/
theorem Rule.Exact.chain (h : operand.Exact l.operand b) :
    (Rule.chain l.table operand).Exact (.binary l) b := by
  refine ⟨fun {z ts e us} => ?_⟩
  constructor
  · intro hr
    obtain ⟨lhs, vs, hlhs, htail⟩ := Parser.reads_chain.1 hr
    obtain ⟨⟨ps, n, rfl, hd, hn⟩, hend⟩ := h.reads.1 hlhs
    exact h.phrase_of_tailReads (.operand hd) hn hend htail
  · rintro ⟨⟨ps, n, rfl, hd, hn⟩, hend⟩
    obtain ⟨hend, hop⟩ := Category.ends_binary_iff.1 hend
    rw [h.reads_chain_append hd hn hend, Parser.tailReads_of_none]
    · exact ⟨rfl, rfl⟩
    · exact fun t ht => Precedence.find?_eq_none_iff.2 (hop t ht)

end Chain

/-! ## Whole expressions

The parser reads the left side of an assignment as it reads any expression, and
asks afterwards whether it is a name. The grammar asks for a name first. -/

/-- **A tree that is a bare name comes from one token.** Parentheses are kept in
the tree, so nothing else looks like a name. -/
theorem Grammar.Derives.eq_singleton_of_reference {c : Category}
    {ts : List Token} {name : Token} {n : Nat}
    (h : Derives c ts (.reference name) n) :
    ts = [name] ∧ name.kind = .identifier := by
  generalize he : Expr.reference name = e at h
  induction h with
  | name ht =>
    cases he
    exact ⟨rfl, ht⟩
  | expression _ ih | equality _ ih | operand _ ih | primary _ ih => exact ih he
  | _ => cases he

namespace Levels

variable {inner : Levels} {b : Nat}

/-- Four chains, one inside the other, each exact because its operands are. -/
theorem exact_comparison (h : inner.Exact b) :
    inner.comparison.Exact (.binary .equality) b := by
  have hunary : inner.unary.Exact .unary b :=
    ⟨(reads_unary h).trans ⟨fun hp => ⟨hp, fun _ _ => id⟩, And.left⟩⟩
  have hfactor := Rule.Exact.chain (l := .factor) hunary
  have hterm := Rule.Exact.chain (l := .term) hfactor
  have hcomparison := Rule.Exact.chain (l := .comparison) hterm
  exact Rule.Exact.chain (l := .equality) hcomparison

/-- **Assignments are read as the grammar says.** The left side is read as a
comparison, and only then found to be a name; that the grammar asks for a name
at once makes no difference. -/
theorem exact_assignment (h : inner.Exact b) :
    inner.assignment.Exact .assignment b := by
  refine ⟨fun {z ts e us} => ?_⟩
  show (inner.comparison.parser >>= fun target => Parser.accept .equal >>= _
    : Parser Expr).Reads z ts e us ↔ _
  simp only [Parser.reads_bind]
  constructor
  · rintro ⟨target, vs, htarget, o, ws, haccept, hrest⟩
    obtain ⟨⟨ps, n, rfl, hd, hn⟩, hend⟩ := (exact_comparison h).reads.1 htarget
    rcases Parser.reads_accept.1 haccept with
      ⟨equals, rfl, hequals, rfl⟩ | ⟨rfl, rfl, hno⟩
    · obtain ⟨value, xs, hvalue, hassign⟩ := Parser.reads_bind.1 hrest
      obtain ⟨⟨qs, i, rfl, hq, hi⟩, hend'⟩ := h.expression.1 hvalue
      cases target with
      | reference name =>
        obtain ⟨rfl, rfl⟩ := Parser.reads_pure.1 hassign
        obtain ⟨rfl, hname⟩ := hd.eq_singleton_of_reference
        exact ⟨⟨name :: equals :: qs, i, rfl, .assign hname hequals hq, hi⟩,
          hend'⟩
      | _ => exact (Parser.reads_fail hassign).elim
    · obtain ⟨rfl, rfl⟩ := Parser.reads_pure.1 hrest
      exact ⟨⟨ps, n, rfl, .equality hd, hn⟩,
        Category.ends_assignment_iff.2 ⟨hend, hno⟩⟩
  · rintro ⟨⟨ps, n, rfl, hd, hn⟩, hend⟩
    cases hd with
    | @assign name equals ts value _ hname hequals hd =>
      have htarget : Derives (.binary .equality) [name] (.reference name) 0 :=
        .operand (.operand (.operand (.operand (.primary (.name hname)))))
      refine ⟨.reference name, equals :: (ts ++ us),
        (exact_comparison h).reads.2 ⟨⟨[name], 0, rfl, htarget, Nat.zero_le b⟩,
          Category.ends_of_equal hequals⟩, some equals, ts ++ us,
        Parser.reads_accept.2 (.inl ⟨equals, rfl, hequals, rfl⟩), ?_⟩
      exact Parser.reads_bind.2 ⟨value, us,
        h.expression.2 ⟨⟨ts, n, rfl, hd, hn⟩, hend⟩,
        Parser.reads_pure.2 ⟨rfl, rfl⟩⟩
    | equality hd =>
      obtain ⟨hend, hno⟩ := Category.ends_assignment_iff.1 hend
      exact ⟨e, us, (exact_comparison h).reads.2 ⟨⟨ps, n, rfl, hd, hn⟩, hend⟩, none,
        us, Parser.reads_accept.2 (.inr ⟨rfl, rfl, hno⟩),
        Parser.reads_pure.2 ⟨rfl, rfl⟩⟩

end Levels

/-- **The parser reads exactly the expressions of the grammar** that its budget
admits, by induction on the budget. -/
theorem levels_exact (b : Nat) : (levels b).Exact b := by
  induction b with
  | zero =>
    refine ⟨⟨fun h => (Parser.reads_failHere h).elim, ?_⟩,
      ⟨fun h => (Parser.reads_failHere h).elim, ?_⟩⟩
    · rintro ⟨⟨ps, n, -, ⟨-⟩, hn⟩, -⟩
      exact absurd hn (Nat.not_succ_le_zero _)
    · rintro ⟨ps, n, -, -, hn⟩
      exact absurd hn (Nat.not_lt_zero n)
  | succ b ih =>
    refine ⟨(Levels.exact_assignment ih).reads.trans ?_,
      (Levels.reads_unary ih).trans ?_⟩
    · constructor
      · rintro ⟨⟨ps, n, rfl, hd, hn⟩, hend⟩
        exact ⟨⟨ps, n + 1, rfl, .expression hd, Nat.succ_le_succ hn⟩, hend⟩
      · rintro ⟨⟨ps, n, rfl, ⟨hd⟩, hn⟩, hend⟩
        exact ⟨⟨ps, _, rfl, hd, Nat.le_of_succ_le_succ hn⟩, hend⟩
    · simp only [Phrase, Nat.lt_succ_iff]

end TreeScript
