import TreeScript.Proofs.Parser.Stmt
import TreeScript.Token.Scan

/-!
# Statements and their first tokens

A statement carries the place of the first token it was read from. To say this of
every statement of a tree, each of them has to be matched with its tokens, and the
places in the tree must not be used for that. `Stmt.ReadFrom P Q ts s` is such a
matching: it follows the tokens `ts` and the tree `s` at once, asks `P` of each
statement with its own tokens, and leaves all places open. The statements that a
`for` loop is read as are matched in it as well: the block and the `while` loop
with the tokens of the whole loop, the block around the body with those of the
body, and the increment, of which `Q` is asked, with those of its clause.

Every statement but an increment has the place of its first token
(`statements_begin_at_first_token`). An increment has the place that identifies
its expression, and for a binary operator that is the operator, not the first
operand. So the first token is missed there (`increment_misses_first_token`),
unless the expression is one that begins with the token that identifies it
(`Expr.leads`).

The matching is a relation over derivations of the grammar: that tokens are a
statement is said by the same rules once more, and with each part the relation
for that part. So it is not another reading of the tokens, and a program that is
read without an error is matched because its derivation can be followed.
Programs with faults have no derivation, and nothing is said of them.
-/

namespace TreeScript

open Grammar

/-! ## Trees matched with their tokens

There is one constructor for each rule of the grammar. A `for` loop needs three
more relations, as its tokens and the statements it stands for are in another
order: the increment is written in front of the body and stands behind it in the
tree. -/

section ReadFrom

variable (P Q : List Token → Stmt → Prop)

mutual

/-- **A statement matched with its tokens.** `P` holds of it and, with their own
tokens, of all statements in it, except that `Q` holds of increments. -/
inductive Stmt.ReadFrom : List Token → Stmt → Prop
  | mk {ts : List Token} {s : Stmt} (h : P ts s) (inside : Stmt.ReadInside ts s) :
      Stmt.ReadFrom ts s

/-- A statement matched with its tokens, where nothing is asked of the statement
itself. -/
inductive Stmt.ReadInside : List Token → Stmt → Prop
  | define {ts : List Token} {a b : Span} {name : Token} {initial : Option Expr}
      {n : Nat} (h : Definition ts (.define a name initial) n) :
      Stmt.ReadInside ts (.define b name initial)
  | expression {ts : List Token} {a b : Span} {e : Expr} {n : Nat}
      (h : ExprStmt ts (.expression a e) n) :
      Stmt.ReadInside ts (.expression b e)
  | print {p semi : Token} {ts : List Token} {a : Span} {e : Expr} {n : Nat}
      (hp : p.kind = .keyword .printKw) (he : Derives .expression ts e n)
      (hsemi : semi.kind = .punctuator .semicolon) :
      Stmt.ReadInside (p :: (ts ++ [semi])) (.print a e)
  | block {l r : Token} {ts : List Token} {a : Span} {ss : List Stmt}
      (hl : l.kind = .punctuator .leftBrace) (hss : Stmt.AllReadFrom ts ss)
      (hr : r.kind = .punctuator .rightBrace) :
      Stmt.ReadInside (l :: (ts ++ [r])) (.block a ss)
  | ifThen {w l r : Token} {cs ts : List Token} {a : Span} {c : Expr} {s : Stmt}
      {n : Nat} (hw : w.kind = .keyword .ifKw)
      (hl : l.kind = .punctuator .leftParen) (hc : Derives .expression cs c n)
      (hr : r.kind = .punctuator .rightParen) (hs : Stmt.ReadFrom ts s) :
      Stmt.ReadInside (w :: l :: (cs ++ r :: ts)) (.branch a c s none)
  | ifElse {w l r x : Token} {cs ts us : List Token} {a : Span} {c : Expr}
      {s u : Stmt} {n : Nat} (hw : w.kind = .keyword .ifKw)
      (hl : l.kind = .punctuator .leftParen) (hc : Derives .expression cs c n)
      (hr : r.kind = .punctuator .rightParen) (hs : Stmt.ReadFrom ts s)
      (hx : x.kind = .keyword .elseKw) (hu : Stmt.ReadFrom us u) :
      Stmt.ReadInside (w :: l :: (cs ++ r :: (ts ++ x :: us)))
        (.branch a c s (some u))
  | whileLoop {w l r : Token} {cs ts : List Token} {a : Span} {c : Expr}
      {s : Stmt} {n : Nat} (hw : w.kind = .keyword .whileKw)
      (hl : l.kind = .punctuator .leftParen) (hc : Derives .expression cs c n)
      (hr : r.kind = .punctuator .rightParen) (hs : Stmt.ReadFrom ts s) :
      Stmt.ReadInside (w :: l :: (cs ++ r :: ts)) (.loop a c s)
  | forLoop {w l semi r : Token} {is cs us ts : List Token} {a b d : Span}
      {before : List Stmt} {c : Option Expr} {round : Stmt} {n : Nat}
      (hw : w.kind = .keyword .forKw) (hl : l.kind = .punctuator .leftParen)
      (hbefore : Stmt.InitialReadFrom is before) (hc : Optional cs c n)
      (hsemi : semi.kind = .punctuator .semicolon)
      (hr : r.kind = .punctuator .rightParen)
      (hround : Stmt.RoundReadFrom us ts round)
      (hloop : P (w :: l :: (is ++ (cs ++ semi :: (us ++ r :: ts))))
        (.loop b (c.getD (.literal ⟨.keyword .trueKw, "true", d⟩)) round)) :
      Stmt.ReadInside (w :: l :: (is ++ (cs ++ semi :: (us ++ r :: ts))))
        (.block a (before
          ++ [.loop b (c.getD (.literal ⟨.keyword .trueKw, "true", d⟩)) round]))

/-- The first clause of a `for` loop, with the statement it is. -/
inductive Stmt.InitialReadFrom : List Token → List Stmt → Prop
  | absent {semi : Token} (h : semi.kind = .punctuator .semicolon) :
      Stmt.InitialReadFrom [semi] []
  | present {ts : List Token} {s : Stmt} (h : Stmt.ReadFrom ts s) :
      Stmt.InitialReadFrom ts [s]

/-- The last clause and the body of a `for` loop, with the statement that both
become. -/
inductive Stmt.RoundReadFrom : List Token → List Token → Stmt → Prop
  | plain {ts : List Token} {s : Stmt} (h : Stmt.ReadFrom ts s) :
      Stmt.RoundReadFrom [] ts s
  | increment {us ts : List Token} {a b : Span} {s : Stmt} {e : Expr} {n : Nat}
      (he : Derives .expression us e n) (hs : Stmt.ReadFrom ts s)
      (h : Q us (.expression b e)) (hblock : P ts (.block a [s, .expression b e])) :
      Stmt.RoundReadFrom us ts (.block a [s, .expression b e])

/-- **Statements matched with their tokens**, one after another. -/
inductive Stmt.AllReadFrom : List Token → List Stmt → Prop
  | nil : Stmt.AllReadFrom [] []
  | cons {ts us : List Token} {s : Stmt} {ss : List Stmt}
      (h : Stmt.ReadFrom ts s) (hmore : Stmt.AllReadFrom us ss) :
      Stmt.AllReadFrom (ts ++ us) (s :: ss)

end

end ReadFrom

/-! ## Places

What is asked of a statement and of an increment. Both are only about the place
that the statement carries and the tokens it is matched with. -/

/-- **The statement has the place of the first token.** -/
def Stmt.AtFirst (ts : List Token) (s : Stmt) : Prop :=
  ts.head?.map Token.span = some s.span

/-- Whether the expression begins with the token that identifies it. -/
def Expr.leads : Expr → Bool
  | assign .. | literal .. | unary .. | reference .. => true
  | binary .. | grouping .. => false

/-- **An increment has the place that identifies its expression.** This is the
place of the first token if the expression begins with that, and otherwise the
place of a token behind the first. -/
inductive Stmt.AtIdentifying (ts : List Token) : Stmt → Prop
  | leading {e : Expr} (hleads : e.leads = true)
      (h : Stmt.AtFirst ts (.expression e.span e)) :
      Stmt.AtIdentifying ts (.expression e.span e)
  | behind {e : Expr} {t : Token} (hleads : e.leads = false) (ht : t ∈ ts.tail)
      (h : t.span = e.span) : Stmt.AtIdentifying ts (.expression e.span e)

/-- An expression is identified by one of its tokens: by the first one if it begins
with that, and otherwise by one behind the first. -/
theorem Grammar.Derives.span_spec {c : Category} {ts : List Token} {e : Expr}
    {n : Nat} (h : Derives c ts e n) :
    if e.leads then ts.head?.map Token.span = some e.span
    else ∃ t ∈ ts.tail, t.span = e.span := by
  induction h with
  | expression _ ih | equality _ ih | operand _ ih | primary _ ih => exact ih
  | assign | unary | literal | name => rfl
  | @link l m op t ts us lhs rhs i j hlhs =>
    -- A chain is not empty, so its operator is not the first token.
    obtain ⟨u, vs, rfl, -⟩ := hlhs.head
    exact ⟨t, List.mem_append_right vs (List.mem_cons_self ..), rfl⟩
  | @grouping l r ts e n hl he hr ih =>
    show ∃ t ∈ ts ++ [r], t.span = e.span
    obtain ⟨t, ht, hspan⟩ : ∃ t ∈ ts, t.span = e.span := by
      split at ih
      · obtain ⟨t, ht, hspan⟩ := Option.map_eq_some_iff.1 ih
        exact ⟨t, List.mem_of_head? ht, hspan⟩
      · obtain ⟨t, ht, hspan⟩ := ih
        exact ⟨t, List.mem_of_mem_tail ht, hspan⟩
    exact ⟨t, List.mem_append_left [r] ht, hspan⟩

/-- An increment gets the place that identifies its expression, and this is what is
asked of it. -/
theorem Grammar.Derives.atIdentifying {c : Category} {ts : List Token} {e : Expr}
    {n : Nat} (h : Derives c ts e n) :
    Stmt.AtIdentifying ts (.expression e.span e) := by
  have hspec := h.span_spec
  split at hspec
  · exact .leading ‹_› hspec
  · obtain ⟨t, ht, hspan⟩ := hspec
    exact .behind (Bool.eq_false_of_not_eq_true ‹_›) ht hspan

/-! ## Derivations

Each rule of the grammar is followed once. Wherever the grammar has a first
token, the parser has given its place to the statement. -/

namespace Grammar

open Stmt (ReadFrom InitialReadFrom RoundReadFrom AllReadFrom AtFirst AtIdentifying)

/-- A definition begins with its word, and has the place of it. -/
theorem Definition.readFrom {ts : List Token} {s : Stmt} {n : Nat}
    (h : Definition ts s n) : ReadFrom AtFirst AtIdentifying ts s := by
  cases h with
  | bare hl hname hsemi => exact .mk rfl (.define (.bare hl hname hsemi))
  | initialized hl hname hequals he hsemi =>
    exact .mk rfl (.define (.initialized hl hname hequals he hsemi))

/-- An expression as a statement has the place of the first token of the
expression, and not of the one that identifies it. -/
theorem ExprStmt.readFrom {ts : List Token} {s : Stmt} {n : Nat}
    (h : ExprStmt ts s n) : ReadFrom AtFirst AtIdentifying ts s := by
  cases h with
  | mk he hsemi => exact .mk rfl (.expression (.mk he hsemi))

/-- The first clause of a `for` loop is one of these two, or missing. -/
theorem Initial.readFrom {ts : List Token} {s : Option Stmt} {n : Nat}
    (h : Initial ts s n) :
    InitialReadFrom AtFirst AtIdentifying ts s.toList := by
  cases h with
  | absent hsemi => exact .absent hsemi
  | definition h => exact .present h.readFrom
  | exprStmt h => exact .present h.readFrom

/-- **The rounds of a `for` loop.** The block around the body has the place of
the body. If there is an increment, it stands in this block and has the place
that identifies its expression. -/
theorem Optional.readFrom {us ts : List Token} {u : Option Expr} {s : Stmt}
    {n : Nat} (h : Optional us u n) (hs : ReadFrom AtFirst AtIdentifying ts s) :
    RoundReadFrom AtFirst AtIdentifying us ts (s.withIncrement u) := by
  cases h with
  | absent => exact .plain hs
  | present he =>
    have hfirst : AtFirst ts s := by
      cases hs with
      | mk h => exact h
    exact .increment he hs he.atIdentifying hfirst

/-- A `for` loop: the block and the `while` loop both have the place of the word
`for`. -/
theorem forTree_readFrom {w l semi r : Token} {is cs us ts : List Token}
    {initial : Option Stmt} {c u : Option Expr} {s : Stmt} {h i j : Nat}
    (hw : w.kind = .keyword .forKw) (hl : l.kind = .punctuator .leftParen)
    (hi : Initial is initial h) (hc : Optional cs c i)
    (hsemi : semi.kind = .punctuator .semicolon) (hu : Optional us u j)
    (hr : r.kind = .punctuator .rightParen)
    (hs : ReadFrom AtFirst AtIdentifying ts s) :
    ReadFrom AtFirst AtIdentifying
      (w :: l :: (is ++ (cs ++ semi :: (us ++ r :: ts))))
      (forTree w.span initial c u s) := by
  rw [← loop_eq_forTree ⟨initial, c, u⟩]
  exact .mk rfl (.forLoop hw hl hi.readFrom hc hsemi hr (hu.readFrom hs) rfl)

mutual

/-- **A statement has the place of its first token**, and so have all statements
in it but the increments. -/
theorem Statement.readFrom {ts : List Token} {s : Stmt} {n : Nat} {d : Bool} :
    Statement ts s n d → ReadFrom AtFirst AtIdentifying ts s
  | .expression h => h.readFrom
  | .print hp he hsemi => .mk rfl (.print hp he hsemi)
  | .block hl hss hr => .mk rfl (.block hl hss.readFrom hr)
  | .ifThen hw hl hc hr hs => .mk rfl (.ifThen hw hl hc hr hs.readFrom)
  | .ifElse hw hl hc hr hs hx hu =>
    .mk rfl (.ifElse hw hl hc hr hs.readFrom hx hu.readFrom)
  | .whileLoop hw hl hc hr hs => .mk rfl (.whileLoop hw hl hc hr hs.readFrom)
  | .forLoop hw hl hi hc hsemi hu hr hs =>
    forTree_readFrom hw hl hi hc hsemi hu hr hs.readFrom

theorem Declaration.readFrom {ts : List Token} {s : Stmt} {n : Nat} :
    Declaration ts s n → ReadFrom AtFirst AtIdentifying ts s
  | .definition h => h.readFrom
  | .statement h => h.readFrom

theorem Sequence.readFrom {ts : List Token} {ss : List Stmt} {n : Nat} :
    Sequence ts ss n → AllReadFrom AtFirst AtIdentifying ts ss
  | .nil => .nil
  | .cons h hmore => .cons h.readFrom hmore.readFrom

end

end Grammar

/-- **Statements begin at their first token.** If the tokens are read without an
error, each statement of the program, at any depth, has the place of the first
token it was read from. The increment of a `for` loop alone has the place that
identifies its expression, which is the first one only if the expression begins
with it. -/
theorem statements_begin_at_first_token (tokens : List Token)
    (h : (parse tokens).errors = []) :
    Stmt.AllReadFrom Stmt.AtFirst Stmt.AtIdentifying
      (tokens.takeWhile fun t => !t.isEnd) (parse tokens).statements := by
  have hparse : parse tokens = ⟨(parse tokens).statements, []⟩ := by rw [← h]
  obtain ⟨n, -, hsequence⟩ := parse_eq_iff.1 hparse
  exact hsequence.readFrom

/-- A loop with all clauses, whose body is a block. -/
def countingLoop : SourceText :=
  ⟨"loop", "for (let i = 0; i < 2; i = i + 1) { if (i) print i; else -i; }"⟩

/-- It is read without an error. -/
theorem errors_countingLoop : (parse countingLoop.scan.tokens).errors = [] := by
  cbv

/-- So all statements of this loop, the ones that it stands for included, begin
where they should. -/
theorem statements_begin_at_first_token_countingLoop :
    let tokens := countingLoop.scan.tokens
    (parse tokens).errors = []
    ∧ Stmt.AllReadFrom Stmt.AtFirst Stmt.AtIdentifying
      (tokens.takeWhile fun t => !t.isEnd) (parse tokens).statements :=
  ⟨errors_countingLoop,
    statements_begin_at_first_token countingLoop.scan.tokens errors_countingLoop⟩

/-! ## An increment that misses its first token

To say that a place is not that of a first token, the tokens of the increment
have to be found. Whatever matching there is, they are tokens of the loop and a
derivation of the expression; and where no token of the loop is a brace, the
body is no block that could be taken for the one around it. -/

section Increment

variable {P Q : List Token → Stmt → Prop} {ts us : List Token} {a b d x : Span}
  {c e : Expr} {s : Stmt}

/-- Without braces, no tokens are read as a block that ends with an expression:
the block of a `for` loop ends with a loop. -/
theorem Stmt.not_readFrom_block
    (hbrace : ∀ t ∈ ts, t.kind ≠ .punctuator .leftBrace) :
    ¬ Stmt.ReadFrom P Q ts (.block d [s, .expression x e]) := by
  rintro ⟨-, inside⟩
  generalize hs : Stmt.block d _ = u at inside
  cases inside with
  | block hl => exact hbrace _ (List.mem_cons_self ..) hl
  | forLoop =>
    have hlast := congrArg List.getLast? (Stmt.block.inj hs).2
    rw [List.getLast?_concat] at hlast
    cases hlast
  | _ => cases hs

/-- **The increment of a loop without braces.** -/
theorem Stmt.RoundReadFrom.increment_of_noBrace
    (h : Stmt.RoundReadFrom P Q us ts (.block d [s, .expression x e]))
    (hbrace : ∀ t ∈ ts, t.kind ≠ .punctuator .leftBrace) :
    (∃ n, Derives .expression us e n) ∧ Q us (.expression x e) := by
  cases h with
  | plain h => exact absurd h (not_readFrom_block hbrace)
  | increment he _ h => exact ⟨⟨_, he⟩, h⟩

/-- The increment of a loop without braces is read from some of its tokens. -/
theorem Stmt.ReadFrom.exists_increment
    (h : Stmt.ReadFrom P Q ts (.block a [.loop b c (.block d [s, .expression x e])]))
    (hbrace : ∀ t ∈ ts, t.kind ≠ .punctuator .leftBrace) :
    ∃ us, us ⊆ ts ∧ (∃ n, Derives .expression us e n) ∧ Q us (.expression x e) := by
  obtain ⟨-, inside⟩ := h
  generalize hs : Stmt.block a _ = u at inside
  cases inside with
  | block hl => exact absurd hl (hbrace _ (List.mem_cons_self ..))
  | @forLoop _ _ _ _ is cs us ts _ _ _ _ _ _ _ _ _ hbefore _ _ _ hround =>
    have hlist := (Stmt.block.inj hs).2
    cases hbefore with
    | present => cases hlist
    | absent =>
      rw [← (Stmt.loop.inj (List.cons.inj hlist).1).2.2] at hround
      refine ⟨us, fun t ht => ?_,
        hround.increment_of_noBrace fun t ht => hbrace t ?_⟩
      · simp [ht]
      · simp [ht]
  | _ => cases hs

end Increment

/-- A loop whose increment does not begin with the operator that identifies it. -/
def strayIncrement : SourceText := ⟨"loop", "for (;; a + 1) print a;"⟩

/-- The loop is read without an error, and its increment has the place of the
plus sign. -/
theorem parse_strayIncrement :
    let place (column : Nat) : Span := ⟨"loop", 1, column⟩
    let name (column : Nat) : Expr := .reference ⟨.identifier, "a", place column⟩
    let sum : Expr :=
      .binary ⟨place 11, .add⟩ (name 9) (.literal ⟨.number, "1", place 13⟩)
    parse strayIncrement.scan.tokens
      = ⟨[.block (place 1)
          [.loop (place 1) (.literal ⟨.keyword .trueKw, "true", place 1⟩)
            (.block (place 16)
              [.print (place 16) (name 22), .expression (place 11) sum])]], []⟩ := by
  cbv

/-- No token of the loop is a brace, and the one at the place of the increment is a
plus sign. -/
theorem tokens_strayIncrement :
    ∀ t ∈ strayIncrement.scan.tokens, t.kind ≠ .punctuator .leftBrace
      ∧ (t.span = ⟨"loop", 1, 11⟩ → t.kind = .punctuator .plus) := by
  decide +kernel

/-- **An increment can miss its first token.** In the loop `for (;; a + 1) print
a;` it has the place of the plus sign. However its tokens are chosen from the
loop, the first of them stands elsewhere, as no expression begins with a plus
sign. -/
theorem increment_misses_first_token :
    ¬ ∀ source : SourceText, (parse source.scan.tokens).errors = [] →
      Stmt.AllReadFrom Stmt.AtFirst Stmt.AtFirst
        (source.scan.tokens.takeWhile fun t => !t.isEnd)
        (parse source.scan.tokens).statements := by
  intro h
  have hread := h strayIncrement (by rw [parse_strayIncrement])
  rw [parse_strayIncrement] at hread
  generalize htokens : strayIncrement.scan.tokens.takeWhile _ = ts at hread
  have hmem : ∀ t ∈ ts, t ∈ strayIncrement.scan.tokens := fun t ht =>
    (List.takeWhile_prefix _).subset (htokens ▸ ht)
  cases hread with
  | cons hloop =>
    obtain ⟨us, hsub, ⟨n, hderives⟩, hfirst⟩ := hloop.exists_increment
      fun t ht => (tokens_strayIncrement t (hmem t (List.mem_append_left _ ht))).1
    obtain ⟨t, us, rfl, hbegins⟩ := hderives.head
    -- The first token would be the plus sign, with which no expression begins.
    have hplus : t.kind = .punctuator .plus :=
      (tokens_strayIncrement t
        (hmem t (List.mem_append_left _ (hsub (List.mem_cons_self ..))))).2
        (Option.some.inj hfirst)
    have hother : t.kind ≠ .punctuator .plus :=
      hbegins.ne_punctuator (by decide) rfl
    exact hother hplus

end TreeScript
