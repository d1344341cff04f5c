import TreeScript.Proofs.Parser.Cursor
import TreeScript.Proofs.Parser.Progress

/-!
# Actions simulate parsers

The actions of a reader with a state and the parsers without one read the same
grammar. An action **simulates** a parser at a depth (`Action.Simulates`) if on
every cursor with so many open levels it gives the answer of the parser, records
the same faults, takes the same tokens and closes all levels that it opened,
whether it answers or fails.

This is proved once for each combinator, and then once for each rule, by the same
steps as the rule is made of. The budget of a parser is the number of levels that
may still be opened, so the two ways to bound the depth agree
(`Action.levels_simulate`, `Action.simulates_statement`).

Three things have to be told apart that the parser without a state has as one.
The position of the cursor counts tokens, while a stream is a list: the tokens
from the position on, cut at the first end-of-file token, are the stream that
the cursor stands in front of (`Cursor.stream`). The counter of open levels goes
up and down, while a budget only goes down: what is proved of an action is
therefore proved at a given number of open levels, and with it that this number
is the same afterwards. And faults are appended to a list that has others in
front, so what is said of them is how the list has grown (`Cursor.Reaches`).

The loops of the actions are bounded by a number of rounds. The parsers need no
such bound, because they loop on the tokens that are left, and the induction is
on the rounds: there are always at least as many as tokens, and every round
takes one.

From `Action.simulates_statement` it follows that calls on one cursor do not
disturb each other, since a parser knows nothing of the calls in front of it.
-/

namespace TreeScript

/-- The end-of-file token is known by its kind, which is what the choices of the
grammar look at. -/
theorem Token.kind_of_isEnd {t : Token} (h : t.isEnd = true) :
    t.kind = .endOfFile :=
  eq_of_beq h

/-! ## What a cursor stands in front of

A cursor never moves past the end-of-file token, so whether it stands at one
decides everything: then its stream is empty, and otherwise the stream begins
with the token the cursor looks at. The proofs below split on this and on
nothing else. -/

namespace Cursor

variable {c c' c'' : Cursor} {r r' : List ParseError}

/-- **What is left to read**: the tokens behind the position, up to the first
end-of-file token. -/
def stream (c : Cursor) : TokenStream where
  tokens := (c.tokens.drop c.position).takeWhile (!Token.isEnd ·)
  finish := ((c.tokens.drop c.position).find? Token.isEnd).getD c.finish

/-- The first token behind the position is the next one. Behind the last token a
cursor looks at a token that is in no list, which is why the position has to be
inside. -/
theorem drop_position (h : c.position < c.tokens.length) :
    c.tokens.drop c.position = c.here :: c.tokens.drop (c.position + 1) := by
  rw [List.drop_eq_getElem_cons h, here, List.getElem?_eq_getElem h]
  rfl

/-- A cursor that does not look at the end is inside its tokens. -/
theorem position_lt (h : c.here.isEnd = false) :
    c.position < c.tokens.length := by
  by_contra hle
  rw [here, List.getElem?_eq_none (Nat.le_of_not_lt hle)] at h
  cases h

/-- **At the end the stream is empty**, whether the cursor stands at an
end-of-file token of the list or behind a list that has none. -/
theorem stream_of_isEnd (h : c.here.isEnd = true) : c.stream = ⟨[], c.here⟩ := by
  unfold stream
  by_cases hlt : c.position < c.tokens.length
  · rw [drop_position hlt, List.takeWhile_cons_of_neg (by simp [h]),
      List.find?_cons_of_pos h]
    rfl
  · rw [List.drop_eq_nil_of_le (Nat.le_of_not_lt hlt), here,
      List.getElem?_eq_none (Nat.le_of_not_lt hlt)]
    rfl

/-- **Elsewhere the stream begins with the next token**, and its tail is the
stream of the cursor that has taken this token. With `stream_of_isEnd` this is
all that is used of the definition of `stream`. -/
theorem stream_of_not_isEnd (h : c.here.isEnd = false) :
    c.stream = ⟨c.here :: c.advance.stream.tokens, c.advance.stream.finish⟩ := by
  have hadvance : c.advance = { c with position := c.position + 1 } := by
    rw [advance, h]
    rfl
  unfold stream
  rw [drop_position (position_lt h), List.takeWhile_cons_of_pos (by simp [h]),
    List.find?_cons_of_neg (by simp [h]), hadvance]
  rfl

/-- Cursor and stream look at the same token, also at the end. So a fault at the
next token is the same fault for both. -/
theorem here_stream (c : Cursor) : c.stream.here = c.here := by
  cases h : c.here.isEnd with
  | true =>
    rw [stream_of_isEnd h]
    rfl
  | false =>
    rw [stream_of_not_isEnd h]
    rfl

/-- No token but the next one can be the first of the stream. This turns what a
parser asks of the head of its stream into what an action asks of the token it
looks at. -/
theorem eq_here {t : Token} (ht : t ∈ c.stream.tokens.head?) : t = c.here := by
  cases h : c.here.isEnd with
  | true =>
    rw [stream_of_isEnd h] at ht
    cases ht
  | false =>
    rw [stream_of_not_isEnd h] at ht
    exact (Option.some.inj ht).symm

/-- At the end, and in front of a token that stops, the stream has no other
token: an action asks for both at once, where a parser has a case for each. -/
theorem stop_of_head {stop : Token → Bool}
    (h : (c.here.isEnd || stop c.here) = true) :
    ∀ t ∈ c.stream.tokens.head?, stop t = true := by
  intro t ht
  rw [eq_here ht]
  cases hend : c.here.isEnd with
  | true =>
    rw [stream_of_isEnd hend] at ht
    cases ht
  | false => rwa [hend, Bool.false_or] at h

/-- There are no more tokens in the stream than rounds that a loop of actions is
given. -/
theorem length_stream_le (c : Cursor) : c.stream.tokens.length ≤ c.left := by
  have hle := (List.takeWhile_prefix (l := c.tokens.drop c.position)
    (!Token.isEnd ·)).length_le
  rwa [List.length_drop] at hle

/-! ## What an action may change

A parser gives back what is left and has no other effect. An action leaves a
whole state, and all of it that is not the answer is accounted for here. -/

/-- **From one state to another** without changing the levels that are open: the
position moves over tokens of the stream, and faults are put behind those that
were recorded. The position is compared with the length of the stream, so that
what an action has taken is known as a number and not only as a suffix. -/
structure Reaches (c c' : Cursor) (r : List ParseError) : Prop where
  /-- The tokens are the same. -/
  tokens : c'.tokens = c.tokens
  /-- The position moves by the tokens that were taken. -/
  position : c'.position + c'.stream.tokens.length
    = c.position + c.stream.tokens.length
  /-- All levels that were opened are closed. -/
  depth : c'.depth = c.depth
  /-- At no time were more levels open than the budget allows. -/
  deepest : c.deepest ≤ nestingBudget → c'.deepest ≤ nestingBudget
  /-- Faults are only added. -/
  recorded : c'.recorded = c.recorded ++ r

namespace Reaches

/-- An action that does nothing reaches the state it began in. -/
theorem refl (c : Cursor) : c.Reaches c [] :=
  ⟨rfl, rfl, rfl, id, (List.append_nil _).symm⟩

/-- One action after another reaches what both together do: tokens taken add up,
and the faults of the second stand behind those of the first. -/
theorem trans (h : c.Reaches c' r) (k : c'.Reaches c'' r') :
    c.Reaches c'' (r ++ r') where
  tokens := k.tokens.trans h.tokens
  position := k.position.trans h.position
  depth := k.depth.trans h.depth
  deepest := k.deepest ∘ h.deepest
  recorded := by rw [k.recorded, h.recorded, List.append_assoc]

/-- A token that is taken is one of the stream. At the end nothing is taken,
since there is no token behind the end-of-file token. -/
theorem advance (c : Cursor) : c.Reaches c.advance [] := by
  cases h : c.here.isEnd with
  | true =>
    rw [Cursor.advance, h]
    exact refl c
  | false =>
    have hstream := stream_of_not_isEnd h
    rw [Cursor.advance, h] at hstream ⊢
    refine ⟨rfl, ?_, rfl, id, (List.append_nil _).symm⟩
    rw [hstream]
    show c.position + 1 + _ = c.position + (_ + 1)
    omega

end Reaches

end Cursor

/-- **An action and a parser agree from a cursor on**: the same answer, the same
faults, and the same tokens left. An action gives a pair and a parser a reply,
so agreement is between results and not between the two readers; loops, which
are neither, can be compared in the same way. -/
structure Cursor.Agrees {α : Type} (c : Cursor) (x : Except ParseError α × Cursor)
    (r : Reply α) : Prop where
  /-- The answer, or the fault that stopped both. -/
  outcome : x.1 = r.outcome
  /-- What is left. -/
  rest : x.2.stream = r.rest
  /-- What else has changed. -/
  reaches : c.Reaches x.2 r.recorded

/-- What was done before the action and the parser began is put in front: the
faults of both were recorded behind `r`. -/
theorem Cursor.Agrees.of_reaches {α : Type} {c c' : Cursor}
    {x : Except ParseError α × Cursor} {q : Reply α} {r : List ParseError}
    (h : c.Reaches c' r) (k : c'.Agrees x q) :
    c.Agrees x ⟨q.outcome, r ++ q.recorded, q.rest⟩ :=
  ⟨k.outcome, k.rest, h.trans k.reaches⟩

/-- **Going on from answers that agree.** A fault stops both; behind an answer,
whatever agrees from the state and the stream that are left agrees as a whole.
This is the step in every sequence and in every round of a loop. -/
theorem Cursor.Agrees.onward {α β : Type} {c : Cursor}
    {x : Except ParseError α × Cursor} {r : Reply α} {f : α → Action β}
    {g : α → TokenStream → Reply β} (h : c.Agrees x r)
    (hf : ∀ a, x.1 = .ok a → x.2.Agrees (f a x.2) (g a x.2.stream)) :
    c.Agrees (Action.onward x f) (r.andThen g) := by
  obtain ⟨outcome, recorded, rest⟩ := r
  obtain ⟨o, c'⟩ := x
  obtain rfl : o = outcome := h.outcome
  obtain rfl : c'.stream = rest := h.rest
  cases o with
  | error e => exact ⟨rfl, rfl, h.reaches⟩
  | ok a => exact (hf a rfl).of_reaches h.reaches

theorem Cursor.Agrees.map {α β : Type} {c : Cursor}
    {x : Except ParseError α × Cursor} {a : α} {r : List ParseError}
    {rest : TokenStream} (h : c.Agrees x ⟨.ok a, r, rest⟩) (f : α → β) :
    c.Agrees (Action.onward x fun a => pure (f a)) ⟨.ok (f a), r, rest⟩ := by
  obtain ⟨o, c'⟩ := x
  obtain rfl : o = .ok a := h.outcome
  exact ⟨rfl, h.rest, h.reaches⟩

namespace Action

variable {α β : Type} {d : Nat}

/-- **The action simulates the parser** while `d` levels are open. The number of
levels is fixed because a parser has no counter: its budget is part of which
parser it is. -/
def Simulates (a : Action α) (p : Parser α) (d : Nat) : Prop :=
  ∀ c : Cursor, c.depth = d → c.Agrees (a c) (p.run c.stream)

/-! ## Combinators

Each combinator of actions simulates the one of the same name, at whatever
number of open levels. Only `nested` changes the number, and it is the only one
whose parser has another name: it stands for the step from one budget to the
next. -/

theorem simulates_pure (a : α) :
    (pure a : Action α).Simulates (pure a) d :=
  fun c _ => ⟨rfl, rfl, .refl c⟩

theorem simulates_fail (e : ParseError) :
    (fail e : Action α).Simulates (.fail e) d :=
  fun c _ => ⟨rfl, rfl, .refl c⟩

/-- **One after another.** The second action runs with the same number of open
levels, as the first has closed all that it opened. -/
theorem Simulates.bind {a : Action α} {p : Parser α} {f : α → Action β}
    {g : α → Parser β} (ha : a.Simulates p d)
    (hf : ∀ x, (f x).Simulates (g x) d) : (a >>= f).Simulates (p >>= g) d :=
  fun c hc => (ha c hc).onward fun x _ =>
    hf x _ ((ha c hc).reaches.depth.trans hc)

theorem simulates_here : here.Simulates .here d :=
  fun c _ => ⟨congrArg Except.ok c.here_stream.symm, rfl, .refl c⟩

theorem simulates_failHere (f : Token → ParseError) :
    (failHere f : Action α).Simulates (.failHere f) d :=
  fun c _ => ⟨congrArg (Except.error ∘ f) c.here_stream.symm, rfl, .refl c⟩

/-- The end-of-file token is no punctuator, so it does not matter that the
parser has no token to look at there. -/
theorem simulates_nextIs (m : Punctuator) :
    (nextIs m).Simulates (.nextIs m) d := by
  refine fun c _ => ⟨congrArg Except.ok ?_, rfl, .refl c⟩
  cases h : c.here.isEnd with
  | true =>
    rw [Cursor.stream_of_isEnd h, Token.kind_of_isEnd h]
    rfl
  | false =>
    rw [Cursor.stream_of_not_isEnd h]
    rfl

/-- **A choice by the next token** is simulated if its cases are and there is
none for the end-of-file token. The parser never offers that token to a choice,
while an action looks at it as at any other. -/
theorem simulates_onNext {f : Token → Option (Action α)}
    {g : Token → Option (Parser α)} {a : Action α} {p : Parser α}
    (hend : ∀ t : Token, t.isEnd = true → f t = none)
    (hf : ∀ t, Option.Rel (Simulates · · d) (f t) (g t))
    (ha : a.Simulates p d) : (onNext f a).Simulates (.onNext g p) d := by
  intro c hc
  cases h : c.here.isEnd with
  | true =>
    have hrun : (Parser.onNext g p).run c.stream = p.run c.stream := by
      simp only [Parser.onNext, Cursor.stream_of_isEnd h]
      rfl
    rw [onNext, hend _ h, hrun]
    exact ha c hc
  | false =>
    have hhead : c.stream.tokens.head?.bind g = g c.here := by
      rw [Cursor.stream_of_not_isEnd h]
      rfl
    have htail : c.stream.tail = c.advance.stream := by
      rw [Cursor.stream_of_not_isEnd h]
      rfl
    have hrel := hf c.here
    simp only [onNext, Parser.onNext, hhead, htail]
    generalize f c.here = fo, g c.here = go at hrel ⊢
    cases hrel with
    | none => exact ha c hc
    | some hp =>
      have hadvance := Cursor.Reaches.advance c
      exact (hp c.advance (hadvance.depth.trans hc)).of_reaches hadvance

/-- A choice for tokens of one kind. All choices between two cases are of this
form. -/
theorem simulates_onKind {k : TokenKind} (hk : k ≠ .endOfFile)
    {f : Token → Action α} {g : Token → Parser α} {a : Action α} {p : Parser α}
    (hf : ∀ t, (f t).Simulates (g t) d) (ha : a.Simulates p d) :
    (onNext (fun t => if t.kind = k then some (f t) else none) a).Simulates
      (.onNext (fun t => if t.kind = k then some (g t) else none) p) d := by
  refine simulates_onNext (fun t ht => if_neg ?_) (fun t => ?_) ha
  · rintro rfl
    exact hk (Token.kind_of_isEnd ht)
  · split
    · exact .some (hf t)
    · exact .none

theorem simulates_accept (m : Punctuator) : (accept m).Simulates (.accept m) d :=
  simulates_onKind (k := .punctuator m) nofun (fun t => simulates_pure (some t))
    (simulates_pure none)

theorem simulates_expect (m : Punctuator) (context : String) :
    (expect m context).Simulates (.expect m context) d :=
  simulates_onKind (k := .punctuator m) nofun (fun _ => simulates_pure ())
    (simulates_failHere _)

/-- **A level is closed** whether there is an answer or a fault. So an action
that runs one level deeper simulates its parser from the level above too, as
long as that level may be opened. -/
theorem Simulates.nested {a : Action α} {p : Parser α}
    (h : a.Simulates p (d + 1)) (hd : d < nestingBudget) :
    (nested a).Simulates p d := by
  intro c hc
  have hlt : ¬ nestingBudget ≤ c.depth := by omega
  -- Whether the inner action answers or fails, it leaves the level that was opened
  -- for it, so there is one to close.
  have hagrees := h c.enter (congrArg (· + 1) hc)
  have hreaches := hagrees.reaches
  unfold Action.nested
  rw [if_neg hlt]
  refine ⟨hagrees.outcome, hagrees.rest, hreaches.tokens, hreaches.position, ?_,
    fun hdeepest => hreaches.deepest ?_, hreaches.recorded⟩
  · show (a c.enter).2.depth - 1 = c.depth
    rw [hreaches.depth]
    rfl
  · show max c.deepest (c.depth + 1) ≤ nestingBudget
    omega

/-- With all levels open, none is opened: the action fails at the next token,
and so does the rule for a budget that is used up. -/
theorem simulates_nested_tooDeep (a : Action α) (hd : nestingBudget ≤ d) :
    (nested a).Simulates (Rule.tooDeep : Rule α).parser d := by
  intro c hc
  unfold Action.nested
  rw [if_pos (hc ▸ hd)]
  exact simulates_failHere _ c hc

/-! ## Chains

A chain of operators is a loop over operands at the same level, and opens none.
-/

/-- No operator is spelled by the end-of-file token, so a chain ends there. -/
theorem find?_eq_none_of_isEnd (table : OperatorTable) {t : Token}
    (h : t.isEnd = true) : table.find? t = none := by
  unfold OperatorTable.find?
  rw [Token.kind_of_isEnd h]

/-- The operators of a chain, by induction on the rounds: there are at least as
many as tokens are left. The operator of a round is a token, so a round later
there are enough of them again. -/
theorem agrees_chainTail {table : OperatorTable} {operand : Action Expr}
    {p : Parser Expr} (h : operand.Simulates p d) (k : Nat) (lhs : Expr)
    (c : Cursor) (hc : c.depth = d) (hk : c.stream.tokens.length ≤ k) :
    c.Agrees (chainTail table operand k lhs c)
      (Parser.chainTail table p lhs c.stream) := by
  induction k generalizing lhs c with
  | zero =>
    have hnil := List.length_eq_zero_iff.1 (Nat.le_zero.1 hk)
    have hdone : Parser.chainTail table p lhs c.stream = ⟨.ok lhs, [], c.stream⟩ :=
      Parser.chainTail_of_none (show ∀ t ∈ c.stream.tokens.head?, _ by simp [hnil])
    rw [hdone]
    exact ⟨rfl, rfl, .refl c⟩
  | succ k ih =>
    cases hop : table.find? c.here with
    | none =>
      have hdone :
          Parser.chainTail table p lhs c.stream = ⟨.ok lhs, [], c.stream⟩ :=
        Parser.chainTail_of_none fun t ht => Cursor.eq_here ht ▸ hop
      simp only [chainTail, onNext, hop, Option.map_none, hdone]
      exact ⟨rfl, rfl, .refl c⟩
    | some op =>
      have hend : c.here.isEnd = false := by
        by_contra hend
        rw [find?_eq_none_of_isEnd table (by simpa using hend)] at hop
        cases hop
      have hstream := Cursor.stream_of_not_isEnd hend
      have hadvance := Cursor.Reaches.advance c
      have hoperand := h c.advance (hadvance.depth.trans hc)
      rw [hstream] at hk ⊢
      rw [Parser.chainTail_of_some hop]
      simp only [chainTail, onNext, hop, Option.map_some]
      refine (hoperand.onward fun rhs _ => ih _ _ ?_ ?_).of_reaches hadvance
      · exact hoperand.reaches.depth.trans (hadvance.depth.trans hc)
      · rw [hoperand.rest]
        exact (p.rest_suffix _).length_le.trans (Nat.le_of_succ_le_succ hk)

/-- A chain is an operand and what stands behind it, with the rounds that the
cursor allows for. -/
theorem Simulates.chain {operand : Action Expr} {p : Parser Expr}
    (h : operand.Simulates p d) (table : OperatorTable) :
    (chain table operand).Simulates (p.chain table) d :=
  fun c hc => (h c hc).onward fun lhs _ =>
    agrees_chainTail h _ lhs _ ((h c hc).reaches.depth.trans hc)
      (Cursor.length_stream_le _)

end Action

/-! ## Recovery

After a fault, both readers skip to where reading can resume. One asks whether
its position has moved since the declaration began, the other whether as many
tokens are left as then; for streams of one cursor this is the same question. -/

namespace Cursor

variable {c : Cursor}

/-- Skipping a declaration, by induction on the bound: it is at least the number
of tokens that are left. Skipping takes tokens and records nothing. -/
theorem stream_skip (k : Nat) (c : Cursor) (hk : c.stream.tokens.length ≤ k) :
    (c.skip k).stream
        = { c.stream with tokens := skipDeclaration c.stream.tokens }
      ∧ c.Reaches (c.skip k) [] := by
  induction k generalizing c with
  | zero =>
    have hnil := List.length_eq_zero_iff.1 (Nat.le_zero.1 hk)
    refine ⟨?_, .refl c⟩
    show c.stream = _
    rw [hnil, skipDeclaration, ← hnil]
  | succ k ih =>
    cases hend : c.here.isEnd with
    | true =>
      rw [skip, hend, stream_of_isEnd hend]
      exact ⟨stream_of_isEnd hend, .refl c⟩
    | false =>
      have hstream := stream_of_not_isEnd hend
      have hadvance := Reaches.advance c
      have hlen : c.advance.stream.tokens.length ≤ k := by
        rw [hstream] at hk
        exact Nat.le_of_succ_le_succ hk
      obtain ⟨hskip, hreaches⟩ := ih c.advance hlen
      rw [skip, hend, Bool.false_or, hstream, skipDeclaration]
      by_cases hstart : c.here.startsDeclaration
      · rw [if_pos hstart, if_pos hstart]
        exact ⟨hstream, .refl c⟩
      · rw [if_neg hstart, if_neg hstart]
        split
        · exact ⟨rfl, hadvance⟩
        · exact ⟨hskip, hadvance.trans hreaches⟩

/-- **Reading resumes at the same place**, as soon as both readers know whether
the declaration took a token. If it took none, one is dropped in front of the
skipping. -/
theorem stream_resync {start : TokenStream} {n : Nat}
    (h : c.position = n ↔ c.stream.tokens.length = start.tokens.length) :
    (c.resync n).stream = TreeScript.resync start c.stream
      ∧ c.Reaches (c.resync n) [] := by
  have hskip := stream_skip c.left c c.length_stream_le
  unfold resync TreeScript.resync
  cases hend : c.here.isEnd with
  | true =>
    rw [if_neg (by simp)]
    refine ⟨hskip.1.trans ?_, hskip.2⟩
    rw [stream_of_isEnd hend]
    split <;> rfl
  | false =>
    have hadvance := Reaches.advance c
    have hstream := stream_of_not_isEnd hend
    by_cases hn : c.position = n
    · rw [if_pos ⟨hn, rfl⟩, if_pos (h.1 hn), hstream]
      have hmore := stream_skip c.advance.left c.advance (length_stream_le _)
      dsimp only
      split
      · exact ⟨rfl, hadvance⟩
      · exact ⟨hmore.1, hadvance.trans hmore.2⟩
    · rw [if_neg (fun hboth => hn hboth.1), if_neg (mt h.2 hn)]
      exact hskip

end Cursor

/-! ## Sequences of declarations -/

/-- Declarations as an answer: reading them never fails, as their faults are
recorded. -/
def Declarations.reply (ds : Declarations) : Reply (List Stmt) :=
  ⟨.ok ds.statements, ds.recorded, ds.rest⟩

namespace Action

variable {d : Nat}

/-- **One declaration of a sequence**, whether it is read or dropped. In the
second case the fault goes behind those of the parts of the declaration, and
then reading resumes. -/
theorem Simulates.once {item : Action Stmt} {rule : Rule Stmt}
    (h : item.Simulates rule.parser d) {c : Cursor} (hc : c.depth = d) :
    c.Agrees (once item c) (rule.once c.stream).reply := by
  have hagrees := h c hc
  unfold Action.once Rule.once
  dsimp only [Rule.run]
  generalize rule.parser.run c.stream = r at hagrees ⊢
  generalize item c = x at hagrees ⊢
  obtain ⟨outcome, recorded, rest⟩ := r
  obtain ⟨o, c'⟩ := x
  obtain ⟨rfl, rfl, hreaches⟩ := hagrees
  cases o with
  | ok s => exact ⟨rfl, rfl, hreaches⟩
  | error e =>
    have hrecord : c'.Reaches (c'.record e) [e] := ⟨rfl, rfl, rfl, id, rfl⟩
    have hposition : (c'.record e).position = c.position
        ↔ (c'.record e).stream.tokens.length = c.stream.tokens.length := by
      have hposition := hreaches.position
      show c'.position = c.position
        ↔ c'.stream.tokens.length = c.stream.tokens.length
      dsimp only at hposition
      omega
    obtain ⟨hstream, hresync⟩ := Cursor.stream_resync hposition
    exact ⟨rfl, hstream, hreaches.trans (hrecord.trans hresync)⟩

/-- A sequence that stops at once has no declarations, at the end as well as in
front of a token that stops it. -/
theorem run_declarations_of_stop {stop : Token → Bool} {rule : Rule Stmt}
    {s : TokenStream} (h : ∀ t ∈ s.tokens.head?, stop t = true) :
    (Parser.declarations stop rule).run s = ⟨.ok [], [], s⟩ := by
  obtain ⟨_ | ⟨t, ts⟩, z⟩ := s
  · simp only [Parser.declarations, declarations_nil]
  · simp only [Parser.declarations, declarations_of_stop (h t rfl)]

/-- Declarations, by induction on the rounds: there are at least as many as
tokens are left, since each declaration gets ahead. What a round leaves to the
next is the same for both readers by `Simulates.once`. -/
theorem agrees_declarationsTail {stop : Token → Bool} {item : Action Stmt}
    {rule : Rule Stmt} (h : item.Simulates rule.parser d) (k : Nat) (c : Cursor)
    (hc : c.depth = d) (hk : c.stream.tokens.length ≤ k) :
    c.Agrees (declarationsTail stop item k c)
      ((Parser.declarations stop rule).run c.stream) := by
  induction k generalizing c with
  | zero =>
    have hnil := List.length_eq_zero_iff.1 (Nat.le_zero.1 hk)
    rw [run_declarations_of_stop (by rw [hnil]; exact nofun)]
    exact ⟨rfl, rfl, .refl c⟩
  | succ k ih =>
    show c.Agrees ((if c.here.isEnd || stop c.here then pure [] else _ :
      Action (List Stmt)) c) _
    cases hstop : c.here.isEnd || stop c.here with
    | true =>
      rw [if_pos rfl, run_declarations_of_stop (Cursor.stop_of_head hstop)]
      exact ⟨rfl, rfl, .refl c⟩
    | false =>
      obtain ⟨hend, hgo⟩ := Bool.or_eq_false_iff.1 hstop
      have hstream := Cursor.stream_of_not_isEnd hend
      have honce := h.once hc
      have hne : c.stream.tokens ≠ [] := by
        rw [hstream]
        exact List.cons_ne_nil _ _
      have hlt := rule.length_once_lt hne
      have happend : TreeScript.declarations stop rule c.stream
          = (rule.once c.stream).append
            (TreeScript.declarations stop rule (rule.once c.stream).rest) := by
        rw [hstream]
        exact declarations_eq_append rule hgo
      show c.Agrees (onward (once item c) fun ss c' =>
          onward (declarationsTail stop item k c') fun more => pure (ss ++ more))
        (TreeScript.declarations stop rule c.stream).reply
      rw [happend]
      refine honce.onward (g := fun ss s => (Declarations.append ⟨ss, [], s⟩
        (TreeScript.declarations stop rule s)).reply) fun ss _ => ?_
      have hmore := ih (once item c).2 (honce.reaches.depth.trans hc) (by
        rw [honce.rest]
        exact Nat.le_of_lt_succ (Nat.lt_of_lt_of_le hlt hk))
      exact hmore.map (ss ++ ·)

theorem Simulates.declarations {item : Action Stmt} {rule : Rule Stmt}
    (h : item.Simulates rule.parser d) (stop : Token → Bool) :
    (declarations stop item).Simulates (.declarations stop rule) d :=
  fun c hc => agrees_declarationsTail h _ c hc (Cursor.length_stream_le c)

/-! ## Expressions

An action for expressions is called with the number of rules that are defined,
and this number has to be larger than the budget it simulates: with the budget
used up, one more rule is there, and it is the one that refuses to open a level.
-/

namespace Levels

variable {a : Levels} {l : TreeScript.Levels}

/-- The actions for expressions simulate the rules of one budget. -/
structure Simulate (a : Levels) (l : TreeScript.Levels) (d : Nat) : Prop where
  /-- A whole expression. -/
  expression : a.expression.Simulates l.expression.parser d
  /-- The operand of a unary operator. -/
  operand : a.operand.Simulates l.operand.parser d

/-- A token leads both readers to the same kind of primary expression, or
neither. -/
theorem rel_primaryBehind (h : a.Simulate l d) (t : Token) :
    Option.Rel (Simulates · · d) (a.primaryBehind t) (l.primaryBehind t) := by
  unfold primaryBehind TreeScript.Levels.primaryBehind
  generalize t.kind = k
  split
  · exact .some (simulates_pure _)
  · split
    · exact .some (simulates_pure _)
    · exact .some (h.expression.bind fun _ =>
        (simulates_expect _ _).bind fun _ => simulates_pure _)
    · simpa only [*] using Option.Rel.none

/-- Operands, of which the primary expressions are a part. -/
theorem rel_operandBehind (h : a.Simulate l d) (t : Token) :
    Option.Rel (Simulates · · d) (a.operandBehind t) (l.operandBehind t) := by
  unfold operandBehind TreeScript.Levels.operandBehind
  generalize t.kind = k
  split
  · exact .some (h.operand.bind fun _ => simulates_pure _)
  · exact .some (h.operand.bind fun _ => simulates_pure _)
  · simpa only [*] using rel_primaryBehind h t

theorem simulates_unary (h : a.Simulate l d) :
    a.unary.Simulates l.unary.parser d := by
  refine simulates_onNext (fun t ht => ?_) (rel_operandBehind h)
    (simulates_failHere _)
  unfold operandBehind primaryBehind
  rw [Token.kind_of_isEnd ht]
  rfl

/-- What may be assigned to is decided by the tree of the left side, which is
the same for both. -/
theorem simulates_assignTo (target : Expr) (equals : Token) (value : Expr) :
    (assignTo target equals value).Simulates
      (TreeScript.Levels.assignTo target equals value) d := by
  cases target with
  | reference name => exact simulates_pure _
  | _ => exact simulates_fail _

/-- An assignment is what the first operand of the chains turns out to be: the
equal sign is looked for behind it. -/
theorem simulates_assignment (h : a.Simulate l d) :
    a.assignment.Simulates l.assignment.parser d := by
  have hcomparison : a.comparison.Simulates l.comparison.parser d :=
    ((((simulates_unary h).chain _).chain _).chain _).chain _
  refine hcomparison.bind fun target => (simulates_accept .equal).bind ?_
  rintro (- | equals)
  · exact simulates_pure target
  · exact h.expression.bind fun value => simulates_assignTo target equals value

end Levels

/-- **The budget is the number of levels that may still be opened**, by
induction on it. With a budget of none, all levels are open and both readers
refuse; with one more, opening a level takes both from this budget to the one
below. -/
theorem levels_simulate {b n : Nat} (hd : b + d = nestingBudget) (hn : b < n) :
    (levels n).Simulate (TreeScript.levels b) d := by
  induction b generalizing n d with
  | zero =>
    cases n with
    | zero => cases hn
    | succ n =>
      have hle : nestingBudget ≤ d := by omega
      exact ⟨simulates_nested_tooDeep _ hle, simulates_nested_tooDeep _ hle⟩
  | succ b ih =>
    cases n with
    | zero => cases hn
    | succ n =>
      have hinner : (levels n).Simulate (TreeScript.levels b) (d + 1) :=
        ih (by omega) (Nat.lt_of_succ_lt_succ hn)
      have hlt : d < nestingBudget := by omega
      exact ⟨(Levels.simulates_assignment hinner).nested hlt,
        (Levels.simulates_unary hinner).nested hlt⟩

/-- The case of whole expressions, which is what statements are made of. -/
theorem simulates_expression {b n : Nat} (hd : b + d = nestingBudget)
    (hn : b < n) :
    (levels n).expression.Simulates (Rule.expression b).parser d :=
  (levels_simulate hd hn).expression

/-! ## Statements

Each rule is an action and a parser built from the same combinators in the same
order, so each proof is the rule once more, with what simulates what in the
place of the parts. -/

section Statements

variable {e : Action Expr} {s : Action Stmt} {expression : Rule Expr}
  {statement : Rule Stmt} (he : e.Simulates expression.parser d)
  (hs : s.Simulates statement.parser d)

/-- A definition without a name fails at the next token, on both sides the same.
-/
theorem simulates_variableName : variableName.Simulates .variableName d :=
  simulates_onKind (k := .identifier) nofun (fun t => simulates_pure t)
    (simulates_failHere _)

section Expression

include he

theorem simulates_some :
    (do return some (← e) : Action (Option Expr)).Simulates
      (do return some (← expression.parser)) d :=
  he.bind fun _ => simulates_pure _

theorem simulates_initialValue :
    (initialValue e).Simulates (.initialValue expression) d := by
  refine (simulates_accept .equal).bind ?_
  rintro (- | equals)
  · exact simulates_pure none
  · exact simulates_some he

theorem simulates_definition (span : Span) :
    (definition e span).Simulates (.definition expression span) d :=
  simulates_variableName.bind fun _ => (simulates_initialValue he).bind fun _ =>
    (simulates_expect _ _).bind fun _ => simulates_pure _

theorem simulates_terminated (context : String) :
    (terminated e context).Simulates (.terminated expression context) d :=
  he.bind fun _ => (simulates_expect _ _).bind fun _ => simulates_pure _

theorem simulates_expressionStatement :
    (expressionStatement e).Simulates (.expressionStatement expression) d :=
  simulates_here.bind fun _ => (simulates_terminated he _).bind fun _ =>
    simulates_pure _

theorem simulates_condition (opening closing : String) :
    (condition e opening closing).Simulates
      (.condition expression opening closing) d :=
  (simulates_expect _ _).bind fun _ => he.bind fun _ =>
    (simulates_expect _ _).bind fun _ => simulates_pure _

theorem simulates_optionalExpression (closing : Punctuator) :
    (optionalExpression e closing).Simulates
      (.optionalExpression expression closing) d := by
  refine (simulates_nextIs closing).bind ?_
  rintro (- | -)
  · exact simulates_some he
  · exact simulates_pure none

/-- The first clause of a `for` loop may be empty, a definition, or an
expression, and is told by its first token. None of these begins with the
end-of-file token. -/
theorem simulates_initialClause :
    (initialClause e).Simulates (.initialClause expression) d := by
  refine simulates_onNext (fun t ht => ?_) (fun t => ?_)
    ((simulates_expressionStatement he).bind fun _ => simulates_pure _)
  · rw [Token.kind_of_isEnd ht]
    rfl
  · split
    · exact .some (simulates_pure none)
    · split
      · exact .some ((simulates_definition he t.span).bind fun _ =>
          simulates_pure _)
      · exact .none

theorem simulates_forClauses :
    (forClauses e).Simulates (.forClauses expression) d :=
  (simulates_expect _ _).bind fun _ => (simulates_initialClause he).bind fun _ =>
    (simulates_optionalExpression he _).bind fun _ =>
      (simulates_expect _ _).bind fun _ =>
        (simulates_optionalExpression he _).bind fun _ =>
          (simulates_expect _ _).bind fun _ => simulates_pure _

end Expression

include hs in
theorem simulates_alternative :
    (alternative s).Simulates (.alternative statement) d :=
  simulates_onKind (k := .keyword .elseKw) nofun
    (fun _ => hs.bind fun _ => simulates_pure _) (simulates_pure none)

include he hs

theorem simulates_branch (span : Span) :
    (branch e s span).Simulates (.branch expression statement span) d :=
  (simulates_condition he _ _).bind fun _ => hs.bind fun _ =>
    (simulates_alternative hs).bind fun _ => simulates_pure _

theorem simulates_whileLoop (span : Span) :
    (whileLoop e s span).Simulates (.whileLoop expression statement span) d :=
  (simulates_condition he _ _).bind fun _ => hs.bind fun _ => simulates_pure _

theorem simulates_forLoop (span : Span) :
    (forLoop e s span).Simulates (.forLoop expression statement span) d :=
  (simulates_forClauses he).bind fun _ => hs.bind fun _ => simulates_pure _

theorem simulates_declaration :
    (declaration e s).Simulates (Rule.declaration expression statement).parser
      d :=
  simulates_onKind (k := .keyword .letKw) nofun
    (fun t => simulates_definition he t.span) hs

/-- The declarations of a block are read up to the closing brace. In it faults
are recorded, so this is where actions and parsers record any. -/
theorem simulates_block (span : Span) :
    (block (declaration e s) span).Simulates
      (.block (.declaration expression statement) span) d :=
  ((simulates_declaration he hs).declarations _).bind fun _ =>
    (simulates_expect _ _).bind fun _ => simulates_pure _

/-- The first token of a statement leads both readers to the same rule, or to
none, and then the statement is an expression. -/
theorem rel_statementBehind (t : Token) :
    Option.Rel (Simulates · · d) (statementBehind e s t)
      (Rule.statementBehind expression statement t) := by
  unfold statementBehind Rule.statementBehind
  generalize t.kind = k
  split
  · exact .some (simulates_branch he hs t.span)
  · exact .some (simulates_whileLoop he hs t.span)
  · exact .some (simulates_forLoop he hs t.span)
  · exact .some ((simulates_terminated he _).bind fun _ => simulates_pure _)
  · exact .some (simulates_block he hs t.span)
  · simpa only [*] using Option.Rel.none

theorem simulates_statementOf :
    (statementOf e s).Simulates
      (Rule.statementOf expression statement).parser d := by
  refine simulates_onNext (fun t ht => ?_) (rel_statementBehind he hs)
    (simulates_expressionStatement he)
  unfold statementBehind
  rw [Token.kind_of_isEnd ht]

end Statements

/-- **Reading a statement with a cursor is reading it from what the cursor
stands in front of**, by induction on the budget. A statement opens a level for
itself, and its expressions and statements are read with what is left. -/
theorem simulates_statement {b n : Nat} (hd : b + d = nestingBudget)
    (hn : b < n) : (statement n).Simulates (Rule.statement b).parser d := by
  induction b generalizing n d with
  | zero =>
    cases n with
    | zero => cases hn
    | succ n => exact simulates_nested_tooDeep _ (by omega)
  | succ b ih =>
    cases n with
    | zero => cases hn
    | succ n =>
      have hd' : b + (d + 1) = nestingBudget := by omega
      have hn' : b < n := Nat.lt_of_succ_lt_succ hn
      exact (simulates_statementOf (simulates_expression hd' hn')
        (ih hd' hn')).nested (by omega)

end Action

end TreeScript
