import TreeScript.Proofs.Parser.Simulation

/-!
# Calls of one reader

A reader with a state answers calls just as the parsers do that have none
(`Cursor.Call.simulates`), and no call leaves a level open. What a call sees of
the state is only the stream behind the position, so readers that stand in front
of the same stream cannot be told apart by calls (`Cursor.Resembles`). In
particular a reader after any calls is like a fresh one over the tokens that are
left.

The stream ends with the first end-of-file token. No call gets past it
(`Cursor.exists_isEnd_after`), so what stands behind it is of no concern.

A call is answered by an action, and the action simulates a parser. A parser has
no state, so its answer depends on the stream alone; this is why calls do not
disturb each other, and no induction over what a call does is needed. What is
kept from call to call is small: no level is open, the position has moved over
tokens of the stream, and faults were put behind others
(`Cursor.exists_reaches_after`).
-/

namespace TreeScript

/-! ## Calls

There are three kinds of calls, for an expression, for a statement and for all
that is left. Each has a parser that answers the same. -/

section Calls

variable {α : Type} {c k : Cursor}

/-- The parser without a state that answers a call, as `TokenStream.expression`,
`TokenStream.statement` and `TokenStream.program` do. -/
def Cursor.Call.parser : Call α → Parser α
  | .expression => (Rule.expression nestingBudget).parser
  | .statement => (Rule.statement nestingBudget).parser
  | .program => .declarations (fun _ => false) topLevel

/-- **A call is answered as by the parser without a state**, if no level is
open. Then the whole budget is left, which is what the parsers of programs have.
-/
theorem Cursor.Call.simulates (call : Call α) :
    call.action.Simulates call.parser 0 := by
  have hbound : nestingBudget < levelBound := Nat.lt_succ_self _
  have he := Action.simulates_expression (Nat.add_zero nestingBudget) hbound
  have hs := Action.simulates_statement (Nat.add_zero nestingBudget) hbound
  cases call with
  | expression => exact he
  | statement => exact hs
  | program => exact (Action.simulates_declaration he hs).declarations _

namespace Cursor

/-- **What calls do to the state**, by induction on the calls: no level stays
open. So every call finds the state as the first one did, apart from the
position. -/
theorem exists_reaches_after (calls : List (Σ α, Call α)) (hc : c.depth = 0) :
    ∃ r, c.Reaches (c.after calls) r := by
  induction calls generalizing c with
  | nil => exact ⟨[], .refl c⟩
  | cons call calls ih =>
    have hcall := (call.2.simulates c hc).reaches
    obtain ⟨r, hr⟩ := ih (hcall.depth.trans hc)
    exact ⟨_, hcall.trans hr⟩

/-- **A reader resembles another one**: it stands in front of the same stream,
with `n` tokens and the faults `r` more behind it. No level is open in either.
The two may differ in how deep they have been and in what they have recorded
before. -/
structure Resembles (c k : Cursor) (n : Nat) (r : List ParseError) : Prop where
  /-- No level is open in the first. -/
  depth : c.depth = 0
  /-- No level is open in the second. -/
  depth' : k.depth = 0
  /-- They see the same tokens. -/
  stream : c.stream = k.stream
  /-- The first has taken `n` tokens more. -/
  position : c.position = n + k.position
  /-- The first had recorded `r` before. -/
  recorded : c.recorded = r ++ k.recorded

/-- **A call does not tell readers apart** that resemble each other: both give
the same answer, and they resemble each other as before. Both agree with the
same parser on the same stream. -/
theorem Resembles.call {n : Nat} {r : List ParseError} (h : c.Resembles k n r)
    (call : Call α) :
    (call.action c).1 = (call.action k).1
      ∧ (call.action c).2.Resembles (call.action k).2 n r := by
  have hc := call.simulates c h.depth
  have hk := call.simulates k h.depth'
  rw [h.stream] at hc
  have hstream : (call.action c).2.stream = (call.action k).2.stream :=
    hc.rest.trans hk.rest.symm
  have hposition :
      (call.action c).2.position = n + (call.action k).2.position := by
    have hcp := hc.reaches.position
    have hkp := hk.reaches.position
    rw [hstream, h.stream, h.position] at hcp
    omega
  refine ⟨hc.outcome.trans hk.outcome.symm, hc.reaches.depth.trans h.depth,
    hk.reaches.depth.trans h.depth', hstream, hposition, ?_⟩
  rw [hc.reaches.recorded, hk.reaches.recorded, h.recorded, List.append_assoc]

/-- Any number of calls keep the resemblance, by induction on them. -/
theorem Resembles.after {n : Nat} {r : List ParseError}
    (h : c.Resembles k n r) (calls : List (Σ α, Call α)) :
    (c.after calls).Resembles (k.after calls) n r := by
  induction calls generalizing c k with
  | nil => exact h
  | cons call calls ih => exact ih (h.call call.2).2

end Cursor

/-! ## Tokens that matter

A fresh reader over the tokens that are left is to be compared with one that has
come there. What stands behind the first end-of-file token is given to one and
not to the other, so it has to be seen that it does not matter. -/

/-- The tokens up to and including the first end-of-file token. -/
def throughEnd : List Token → List Token
  | [] => []
  | t :: ts => if t.isEnd then [t] else t :: throughEnd ts

section ThroughEnd

variable {ts : List Token}

/-- What decides about the stream of a list is in front of the first end-of-file
token, or is that token. -/
theorem throughEnd_append (h : ∃ t ∈ ts, t.isEnd = true) (us : List Token) :
    (throughEnd ts ++ us).takeWhile (!Token.isEnd ·)
        = ts.takeWhile (!Token.isEnd ·)
      ∧ (throughEnd ts ++ us).find? Token.isEnd = ts.find? Token.isEnd := by
  induction ts with
  | nil =>
    obtain ⟨t, ht, -⟩ := h
    cases ht
  | cons t ts ih =>
    cases ht : t.isEnd with
    | true => simp [throughEnd, ht]
    | false =>
      have hrest : ∃ t ∈ ts, t.isEnd = true := by simpa [ht] using h
      simp [throughEnd, ht, ih hrest]

/-- **Behind the first end-of-file token anything may stand.** -/
theorem ofTokens_throughEnd_append (h : ∃ t ∈ ts, t.isEnd = true)
    (us : List Token) :
    TokenStream.ofTokens (throughEnd ts ++ us) = .ofTokens ts := by
  obtain ⟨htake, hfind⟩ := throughEnd_append h us
  obtain ⟨t, ht⟩ := Option.isSome_iff_exists.1 (List.find?_isSome.2 h)
  unfold TokenStream.ofTokens
  rw [htake, hfind, ht]

theorem ofTokens_throughEnd (h : ∃ t ∈ ts, t.isEnd = true) :
    TokenStream.ofTokens (throughEnd ts) = .ofTokens ts := by
  rw [← ofTokens_throughEnd_append h [], List.append_nil]

end ThroughEnd

namespace Cursor

/-- At the start, all of the stream is left. The position is at the front. -/
theorem stream_ofTokens (ts : List Token) :
    (ofTokens ts).stream = .ofTokens ts := by
  unfold stream TokenStream.ofTokens
  show TokenStream.mk (ts.takeWhile _) ((ts.find? Token.isEnd).getD _) = _
  cases ts.find? Token.isEnd <;> rfl

variable {ts : List Token} (calls : List (Σ α, Call α))

/-- **No call gets past the first end-of-file token**, so behind any calls there
is still one to come. -/
theorem exists_isEnd_after (h : ∃ t ∈ ts, t.isEnd = true) :
    ∃ t ∈ ts.drop ((ofTokens ts).after calls).position, t.isEnd = true := by
  obtain ⟨r, hr⟩ := exists_reaches_after (c := ofTokens ts) calls rfl
  have hlt := List.findIdx_lt_length_of_exists h
  have hle : ((ofTokens ts).after calls).position ≤ ts.findIdx Token.isEnd := by
    have hposition := hr.position
    rw [stream_ofTokens, TokenStream.length_ofTokens,
      show (ofTokens ts).position = 0 from rfl, Nat.zero_add] at hposition
    exact Nat.le_of_add_right_le hposition.le
  obtain ⟨j, hj⟩ := Nat.exists_eq_add_of_le hle
  refine ⟨ts[ts.findIdx Token.isEnd], ?_, List.findIdx_getElem⟩
  exact List.mem_drop_iff_getElem.2 ⟨j, by omega, by simp only [hj]⟩

/-- **What is left after calls** is what would be read of the tokens from the
position on, by a reader that starts there. -/
theorem stream_after (h : ∃ t ∈ ts, t.isEnd = true) :
    ((ofTokens ts).after calls).stream
      = .ofTokens (ts.drop ((ofTokens ts).after calls).position) := by
  obtain ⟨r, hr⟩ := exists_reaches_after (c := ofTokens ts) calls rfl
  obtain ⟨t, ht⟩ := Option.isSome_iff_exists.1
    (List.find?_isSome.2 (exists_isEnd_after calls h))
  unfold stream TokenStream.ofTokens
  rw [hr.tokens, show (ofTokens ts).tokens = ts from rfl, ht]
  rfl

end Cursor

/-- **A reader keeps no state between calls** but its position and the faults it
has recorded. After any calls, no level is open, and at no time were more than 64.
The next call gives the answer of a reader that has only the tokens from here
through the first end-of-file token, takes as many tokens, and adds the faults
that this one records; all three are those of the parser without a state. What
stands behind the first end-of-file token never matters. -/
theorem calls_independent {ts : List Token} (hts : ∃ t ∈ ts, t.isEnd = true)
    (calls : List (Σ α, Cursor.Call α)) (next : Cursor.Call α) :
    let c := (Cursor.ofTokens ts).after calls
    let fresh := Cursor.ofTokens (throughEnd (ts.drop c.position))
    let reply := next.parser.run (.ofTokens (ts.drop c.position))
    let c' := (next.action c).2
    let fresh' := (next.action fresh).2
    (c.depth = 0 ∧ c.deepest ≤ 64)
    ∧ ((next.action c).1 = (next.action fresh).1
      ∧ c'.position = c.position + fresh'.position
      ∧ c'.recorded = c.recorded ++ fresh'.recorded)
    ∧ ((next.action c).1 = reply.outcome
      ∧ TokenStream.ofTokens (ts.drop c'.position) = reply.rest
      ∧ c'.recorded = c.recorded ++ reply.recorded)
    ∧ ∀ us, let k := (Cursor.ofTokens (throughEnd ts ++ us)).after calls
      k.position = c.position ∧ k.recorded = c.recorded
        ∧ (next.action k).1 = (next.action c).1 := by
  intro c fresh reply c' fresh'
  obtain ⟨r, hr⟩ := Cursor.exists_reaches_after (c := .ofTokens ts) calls rfl
  have hdepth : c.depth = 0 := hr.depth
  have hstream : c.stream = .ofTokens (ts.drop c.position) :=
    Cursor.stream_after calls hts
  have hagrees := next.simulates c hdepth
  rw [hstream] at hagrees
  -- The state after the next call is again one after calls.
  have hafter : c' = (Cursor.ofTokens ts).after (calls ++ [⟨α, next⟩]) := by
    unfold Cursor.after
    rw [List.foldl_append]
    rfl
  have hrest : TokenStream.ofTokens (ts.drop c'.position) = c'.stream := by
    rw [hafter, Cursor.stream_after _ hts]
  have hfresh : c.Resembles fresh c.position c.recorded := by
    refine ⟨hdepth, rfl, ?_, rfl, (List.append_nil _).symm⟩
    rw [hstream, Cursor.stream_ofTokens,
      ofTokens_throughEnd (Cursor.exists_isEnd_after calls hts)]
  obtain ⟨hanswer, hresembles⟩ := hfresh.call next
  refine ⟨⟨hdepth, hr.deepest (Nat.zero_le _)⟩,
    ⟨hanswer, hresembles.position, hresembles.recorded⟩,
    ⟨hagrees.outcome, hrest.trans hagrees.rest, hagrees.reaches.recorded⟩, ?_⟩
  intro us k
  have hstart : (Cursor.ofTokens (throughEnd ts ++ us)).Resembles
      (.ofTokens ts) 0 [] := by
    refine ⟨rfl, rfl, ?_, rfl, rfl⟩
    rw [Cursor.stream_ofTokens, Cursor.stream_ofTokens,
      ofTokens_throughEnd_append hts]
  have hk : k.Resembles c 0 [] := hstart.after calls
  exact ⟨hk.position.trans (Nat.zero_add _), hk.recorded, (hk.call next).1⟩

end Calls

/-- The tokens of `a ; ) ; print a ;` with an end-of-file token behind them, and
others behind that one. -/
def beyondEnd : List Token :=
  [.identifier, .punctuator .semicolon, .punctuator .rightParen,
    .punctuator .semicolon, .keyword .printKw, .identifier,
    .punctuator .semicolon, .endOfFile, .keyword .printKw].map .ofKind

/-- A statement is read, and no expression can be read behind it. Then the rest of
the program is read as a fresh reader reads it. -/
theorem calls_beyondEnd :
    ∃ c fresh : Cursor,
      c = (Cursor.ofTokens beyondEnd).after
        [⟨Stmt, .statement⟩, ⟨Expr, .expression⟩]
      ∧ fresh = .ofTokens (throughEnd (beyondEnd.drop c.position))
      ∧ (∃ t ∈ beyondEnd, t.isEnd = true)
      ∧ c.position = 2
      ∧ c.depth = 0
      ∧ (Cursor.Call.program.action c).1 = (Cursor.Call.program.action fresh).1
      ∧ (Cursor.Call.program.action c).2.position
        = c.position + (Cursor.Call.program.action fresh).2.position := by
  have hend : ∃ t ∈ beyondEnd, t.isEnd = true := by decide
  obtain ⟨⟨hdepth, -⟩, ⟨hanswer, hmoved, -⟩, -⟩ := calls_independent hend
    [⟨Stmt, .statement⟩, ⟨Expr, .expression⟩] .program
  exact ⟨_, _, rfl, rfl, hend, by decide +kernel, hdepth, hanswer, hmoved⟩

end TreeScript
