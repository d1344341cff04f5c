import Mathlib
import TreeScript.Proofs.Exec.Padding
import TreeScript.Proofs.Exec.Rounds
import TreeScript.Proofs.Scoping.Discipline

/-!
# Loops with clauses, executed directly

A `for` loop is read as a block around a `while` loop, whose body is a further
block if the loop has an increment. Here is what the loop means in its own
right (`ForClauses.exec`): it has one scope for all its rounds, in which the
initial clause is executed once, and then the condition, the body and the
increment in turn.

The tree that is read does the same from every state (`forLoop_direct`). What
needs an argument is the block around the body: in it the increment could see
names that the body has defined. But a body is never a definition
(`Rule.isBody_statement`), so the frame of that block stays without names, and
such a frame is not noticed (`Stmt.WellPlaced.parallel`).

The meaning is written in the words of the language: `start`, `test` and
`advance` execute a clause each, and a missing clause does what the language
says it does. `turns` is the loop itself. That it is bounded by the same number
as the loop of the tree makes the two equal for every bound, and with that equal
in whether they end.

The proof rewrites the tree towards this meaning. The parts of the tree are
taken in order: the condition that was made up, the body with its increment, the
loop, the block around all.
-/

namespace TreeScript

namespace ForClauses

variable (c : ForClauses) (rounds : Nat) (body : Stmt)

/-! ## The direct meaning

No trees are built here and no scopes entered but one. -/

/-- Executes the initial clause. -/
def start (m : Machine) : Except Halt Unit × Machine :=
  c.initial.elim (.ok (), m) fun s => s.exec rounds m

/-- Whether another round follows. A missing condition always holds. -/
def test (m : Machine) : Except Halt Bool × Machine :=
  c.condition.elim (.ok true, m) m.holds

/-- Evaluates the increment. -/
def advance (m : Machine) : Except Halt Unit × Machine :=
  c.increment.elim (.ok (), m) fun e =>
    andThen (m.eval e) fun _ m => (.ok (), m)

/-- **The rounds of the loop**: while the condition holds, the body and then the
increment. The number bounds the rounds. -/
def turns : Nat → Machine → Except Halt Unit × Machine
  | 0, m => (.error .tooManyRounds, m)
  | n + 1, m =>
    andThen (c.test m) fun goesOn m =>
      if goesOn then
        andThen (body.exec rounds m) fun _ m =>
          andThen (c.advance m) fun _ m => turns n m
      else (.ok (), m)

/-- **Executes a `for` loop** in one scope of its own, which is left on every
exit. -/
def exec (m : Machine) : Except Halt Unit × Machine :=
  let (r, m) := andThen (c.start rounds m.enter) fun _ m =>
    c.turns rounds body rounds m
  (r, m.leave)

end ForClauses

/-! ## The tree does the same

From a state on, for a body that the grammar allows. -/

/-- A step that goes on beside another one in a block without names is that
step, once the block is left. -/
theorem Beside.leave_eq {p p' : Except Halt Unit × Machine}
    (h : Beside (Machine.Padded 0) p p') : (p'.1, p'.2.leave) = p := by
  obtain ⟨hr, hm⟩ := h
  rw [hr, hm.leave_eq]

namespace ForClauses

variable {c : ForClauses} {rounds : Nat} {body : Stmt}

/-- A missing condition is read as the literal `true`, which holds without a
change of the state. -/
theorem holds_condition (span : Span) (m : Machine) :
    m.holds (c.condition.getD (.literal ⟨.keyword .trueKw, "true", span⟩))
      = c.test m := by
  unfold test
  cases c.condition with
  | none => rfl
  | some e => rfl

/-- **The block around the body and the increment is not noticed.** The body
runs in the block and, on the other side, in front of it. It keeps the two
states equal but for the frame of the block, and the increment does not see this
frame, which is still without names. -/
theorem exec_withIncrement (hb : body.IsBody) (m : Machine) :
    Stmt.exec rounds (body.withIncrement c.increment) m
      = andThen (Stmt.exec rounds body m) fun _ m => c.advance m := by
  unfold advance
  cases c.increment with
  | none =>
    show Stmt.exec rounds body m = _
    match Stmt.exec rounds body m with
    | (.ok (), _) => rfl
    | (.error _, _) => rfl
  | some e =>
    show Stmt.exec rounds (.block body.span [body, .expression e.span e]) m = _
    -- The body runs in the block, while in the meaning it runs in front of it.
    rw [Stmt.exec_block, Stmt.execAll_cons]
    have hbody : Beside (Machine.Padded 0) (Stmt.exec rounds body m)
        (Stmt.exec rounds body m.enter) :=
      hb.1.parallel 0 (fun _ => hb.2) m.padded_enter
    refine (hbody.andThen fun _ m m' hm => ?_).leave_eq
    rw [Stmt.execAll_singleton, Stmt.exec_expression]
    exact (hm.eval e).andThen fun _ _ _ hm => ⟨rfl, hm⟩

/-- The `while` loop of the tree takes the same rounds. -/
theorem whileLoop_eq_turns (hb : body.IsBody) (span : Span) (n : Nat)
    (m : Machine) :
    whileLoop
        (·.holds (c.condition.getD (.literal ⟨.keyword .trueKw, "true", span⟩)))
        (Stmt.exec rounds (body.withIncrement c.increment)) n m
      = c.turns rounds body n m := by
  induction n generalizing m with
  | zero => rfl
  | succ n ih =>
    rw [whileLoop_succ, turns, holds_condition]
    simp only [exec_withIncrement hb, andThen_assoc, ih]

/-- **The tree of a `for` loop does what the loop means**, for every bound on
the rounds. The parts of the tree were treated before: here the initial clause
is put in front of the rounds, inside the outer block. -/
theorem exec_loop (hb : body.IsBody) (span : Span) (m : Machine) :
    Stmt.exec rounds (c.loop span body) m = c.exec rounds body m := by
  -- An initial clause is the first statement of the outer block, if there is
  -- one.
  unfold loop exec start
  rw [Stmt.exec_block]
  cases c.initial with
  | none =>
    rw [Option.toList_none, List.nil_append, Stmt.execAll_singleton,
      Stmt.exec_loop, whileLoop_eq_turns hb]
    rfl
  | some s =>
    rw [Option.toList_some, List.singleton_append, Stmt.execAll_cons]
    simp only [Stmt.execAll_singleton, Stmt.exec_loop, whileLoop_eq_turns hb]
    rfl

end ForClauses

/-! ## Loops that were read

The clauses and the body are those that the parser returns, so nothing is
assumed of them. -/

/-- **A `for` loop that was read does what the loop means.** Whatever its
clauses and its body are, and from every state: its tree takes the same steps as
the direct execution, so that the result, the events and all scopes are the same
under every bound on the rounds. Without a bound, both go on forever or end in
the same way. On every exit the scopes that are left are those the loop was
started in. -/
theorem forLoop_direct {budget : Nat} {span : Span} {s : TokenStream}
    {st : Stmt} (h : ((Parser.forLoop (.expression budget) (.statement budget) span).run
      s).outcome = .ok st) :
    ∃ (c : ForClauses) (body : Stmt),
      let clauses := (Parser.forClauses (.expression budget)).run s
      clauses.outcome = .ok c
      ∧ ((Rule.statement budget).run clauses.rest).outcome = .ok body
      ∧ ∀ m : Machine,
        (∀ rounds, st.exec rounds m = c.exec rounds body m)
        ∧ (Diverges (c.exec · body m) ∨ ∃ r m', Settles (c.exec · body m) r m')
        ∧ ∀ rounds, (st.exec rounds m).2.env.domains = m.env.domains := by
  obtain ⟨c, hc, h⟩ := Parser.bind_eq_ok h
  obtain ⟨body, hbody, h⟩ := Parser.bind_eq_ok h
  obtain rfl : c.loop span body = st := Except.ok.inj h
  -- The grammar forbids a definition as the body of a loop.
  have hb : body.IsBody :=
    Rule.isBody_statement budget _ (fun _ _ => trivial) body hbody
  refine ⟨c, body, hc, hbody, fun m => ?_⟩
  have hexec : ∀ rounds,
      (c.loop span body).exec rounds m = c.exec rounds body m :=
    fun rounds => ForClauses.exec_loop hb span m
  refine ⟨hexec, ?_, fun rounds => ?_⟩
  · simpa only [hexec] using (c.loop span body).diverges_or_settles m
  · exact Stmt.domains_exec_block span (fun s _ => s.orderly rounds) m

/-- The name `i`. -/
def countingName : Token := ⟨.identifier, "i", .unknown⟩

/-- The tokens of `(let i = 0; i < 2; i = i + 1) print i;`. -/
def countingTokens : List Token :=
  let mark (p : Punctuator) : Token := ⟨.punctuator p, p.text, .unknown⟩
  let digit (text : String) : Token := ⟨.number, text, .unknown⟩
  [mark .leftParen, ⟨.keyword .letKw, "let", .unknown⟩, countingName,
    mark .equal, digit "0", mark .semicolon,
    countingName, mark .less, digit "2", mark .semicolon,
    countingName, mark .equal, countingName, mark .plus, digit "1",
    mark .rightParen,
    ⟨.keyword .printKw, "print", .unknown⟩, countingName, mark .semicolon]

/-- The clauses `let i = 0`, `i < 2` and `i = i + 1`. -/
def countingClauses : ForClauses where
  initial :=
    some (.define .unknown countingName
      (some (.literal ⟨.number, "0", .unknown⟩)))
  condition :=
    some (.binary ⟨.unknown, .comparison .less⟩ (.reference countingName)
      (.literal ⟨.number, "2", .unknown⟩))
  increment :=
    some (.assign countingName (.binary ⟨.unknown, .add⟩
      (.reference countingName) (.literal ⟨.number, "1", .unknown⟩)))

/-- The body `print i;`. -/
def countingBody : Stmt := .print .unknown (.reference countingName)

/-- A loop that counts is read, and counts in one scope of its own. -/
theorem exec_countingLoop :
    ((Parser.forLoop (.expression 2) (.statement 2) .unknown).run
      ⟨countingTokens, .endOfFile .unknown⟩).outcome
        = .ok (countingClauses.loop .unknown countingBody)
    ∧ ∀ (m : Machine) rounds,
      (countingClauses.loop .unknown countingBody).exec rounds m
        = countingClauses.exec rounds countingBody m := by
  have h : ((Parser.forLoop (.expression 2) (.statement 2) .unknown).run
      ⟨countingTokens, .endOfFile .unknown⟩).outcome
        = .ok (countingClauses.loop .unknown countingBody) := by cbv
  obtain ⟨c, body, hc, hbody, hexec⟩ := forLoop_direct h
  obtain rfl : countingClauses = c := Except.ok.inj (Eq.trans (by cbv) hc)
  obtain rfl : countingBody = body := Except.ok.inj (Eq.trans (by cbv) hbody)
  exact ⟨h, fun m => (hexec m).1⟩

end TreeScript
