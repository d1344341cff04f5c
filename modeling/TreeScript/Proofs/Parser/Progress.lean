import TreeScript.Proofs.Parser.Derived
import TreeScript.Proofs.Parser.Stmt

/-!
# Progress

Reading a program never goes back, never goes past the end, and never stands
still. What a parser leaves is the stream with its cursor further on
(`TokenStream.exists_cursor`), and each declaration of a sequence moves the
cursor, whether it follows the grammar or is dropped (`Rule.length_once_lt`).

Faults have a budget: there are never more statements and faults than tokens.
A fault is recorded for a declaration, and each declaration begins at a token
of its own, also one inside a block that is malformed itself. To count this
without following the calls, a parser is **thrifty** if it records at most one
fault for each token it takes. All parsers are, and a declaration is even one
token better off: the one it begins with pays for the declaration itself
(`Parser.Spares`).

The count is not by induction on the calls, as a call may fail anywhere. What a
parser records and what it takes are numbers of its reply, and an inequality
between them goes through the grammar as a congruence does
(`Parser.spares_kept`). The whole statement is `parse_progress`.
-/

namespace TreeScript

/-! ## Cursors

A stream is a list of tokens and shrinks while it is read. Where reading has got
to is a number: how many tokens of the stream it began with are gone. -/

namespace TokenStream

/-- **The stream with its cursor at `c`**: the first `c` tokens have been
taken. -/
def drop (s : TokenStream) (c : Nat) : TokenStream :=
  { s with tokens := s.tokens.drop c }

theorem length_drop (s : TokenStream) (c : Nat) :
    (s.drop c).tokens.length = s.tokens.length - c :=
  List.length_drop

/-- **What is left of a stream has its cursor further on**, and not behind the
last token. -/
theorem exists_cursor {s u : TokenStream} {c : Nat}
    (hc : c ≤ s.tokens.length) (h : u.IsSuffix (s.drop c)) :
    ∃ c', c ≤ c' ∧ c' ≤ s.tokens.length ∧ u = s.drop c' := by
  have hle := h.length_le
  rw [length_drop] at hle
  refine ⟨s.tokens.length - u.tokens.length, by omega, by omega, ?_⟩
  have hsuffix : u.tokens <:+ s.tokens := h.1.trans (List.drop_suffix c _)
  obtain ⟨us, z⟩ := u
  obtain rfl : z = s.finish := h.2
  exact congrArg (TokenStream.mk · s.finish) (List.suffix_iff_eq_drop.1 hsuffix)

/-- A stream that is shorter has its cursor strictly further on. This is what
progress means for the cursor. -/
theorem exists_cursor_lt {s u : TokenStream} {c : Nat}
    (hc : c ≤ s.tokens.length) (h : u.IsSuffix (s.drop c))
    (hlt : u.tokens.length < (s.drop c).tokens.length) :
    ∃ c', c < c' ∧ c' ≤ s.tokens.length ∧ u = s.drop c' := by
  obtain ⟨c', hle, hc', rfl⟩ := exists_cursor hc h
  rw [length_drop, length_drop] at hlt
  exact ⟨c', by omega, hc', rfl⟩

/-- The tokens of a stream are those in front of the first end-of-file token.
Behind it nothing is ever read. -/
theorem tokens_ofTokens_eq_take (ts : List Token) :
    (ofTokens ts).tokens = ts.take (ts.findIdx Token.isEnd) := by
  show ts.takeWhile _ = _
  rw [List.takeWhile_eq_take_findIdx_not]
  simp only [Bool.not_not]

/-- The number of the first end-of-file token is the number of tokens to be
read, also if there is no such token. -/
theorem length_ofTokens (ts : List Token) :
    (ofTokens ts).tokens.length = ts.findIdx Token.isEnd := by
  rw [tokens_ofTokens_eq_take, List.length_take,
    Nat.min_eq_left List.findIdx_le_length]

end TokenStream

/-! ## One declaration

A loop over declarations is hard to speak about as long as each round is a match
on a reply. Here a round is a step of its own, with what it gives and what it
leaves. -/

/-- Declarations, and more of them behind. -/
def Declarations.append (d more : Declarations) : Declarations :=
  ⟨d.statements ++ more.statements, d.recorded ++ more.recorded, more.rest⟩

/-- **Reads one declaration of a sequence.** If it does not follow the grammar,
its fault is recorded behind those of its parts, and what is left begins where
reading resumes. -/
def Rule.once (item : Rule Stmt) (s : TokenStream) : Declarations :=
  let r := item.run s
  match r.outcome with
  | .ok d => ⟨[d], r.recorded, r.rest⟩
  | .error e => ⟨[], r.recorded ++ [e], resync s r.rest⟩

section Once

variable {stop : Token → Bool} (item : Rule Stmt)

/-- **A sequence is read one declaration at a time**, up to a token that stops
it. -/
theorem declarations_eq_append {z t : Token} {ts : List Token}
    (hgo : stop t = false) :
    declarations stop item ⟨t :: ts, z⟩
      = (item.once ⟨t :: ts, z⟩).append
          (declarations stop item (item.once ⟨t :: ts, z⟩).rest) := by
  unfold Rule.once Declarations.append
  match hr : item.run ⟨t :: ts, z⟩ with
  | ⟨.ok d, recorded, rest⟩ => exact declarations_of_ok hgo hr
  | ⟨.error e, recorded, rest⟩ =>
    rw [declarations_of_error hgo hr]
    simp only [List.nil_append, List.append_assoc, List.singleton_append]

/-- What one declaration leaves is a suffix, whether it was read or dropped. -/
theorem Rule.once_rest_isSuffix (s : TokenStream) :
    (item.once s).rest.IsSuffix s := by
  have hrest := item.parser.rest_suffix s
  unfold once
  dsimp only
  split
  · exact hrest
  · exact (resync_isSuffix s _).trans hrest

/-- **Each declaration gets ahead**, whether it is read or dropped. If it is
read, its rule has taken a token; if it is dropped, recovery drops one if no
other was taken. -/
theorem Rule.length_once_lt {s : TokenStream} (h : s.tokens ≠ []) :
    (item.once s).rest.tokens.length < s.tokens.length := by
  obtain ⟨t, ts, hs⟩ := List.exists_cons_of_ne_nil h
  unfold once
  dsimp only
  split
  · rename_i d hd
    exact item.advances s d hd
  · exact length_resync_lt hs (item.parser.rest_suffix s)

end Once

/-! ## The budget of faults

Two properties are needed, as not all parsers have a token to spare. A block can
be made of nothing but malformed declarations, one for each token between its
braces. The opening brace then makes up for the fault of the block itself. -/

namespace Parser

variable {α β : Type}

/-- **The parser is thrifty**: it records at most one fault for each token it
takes. A sequence of declarations is thrifty and no more, as it may consist of
dropped ones. -/
def Thrifty (p : Parser α) : Prop :=
  ∀ s, (p.run s).recorded.length + (p.run s).rest.tokens.length
    ≤ s.tokens.length

/-- **The parser spares a token** whenever it records a fault: it takes more
tokens than it records faults. For a declaration the token left over pays for
the statement that is read, or for the fault it is dropped for. -/
def Spares (p : Parser α) : Prop :=
  ∀ s, (p.run s).recorded = []
    ∨ (p.run s).recorded.length + (p.run s).rest.tokens.length
      < s.tokens.length

/-- A parser that records nothing is thrifty, as it never puts tokens back. -/
theorem Quiet.thrifty {p : Parser α} (h : p.Quiet) : p.Thrifty := by
  intro s
  rw [h s, List.length_nil, Nat.zero_add]
  exact (p.rest_suffix s).length_le

theorem Quiet.spares {p : Parser α} (h : p.Quiet) : p.Spares :=
  fun s => .inl (h s)

/-- Sparing a token is more than being thrifty. -/
theorem Spares.thrifty {p : Parser α} (h : p.Spares) : p.Thrifty := by
  intro s
  rcases h s with hnone | hlt
  · rw [hnone, List.length_nil, Nat.zero_add]
    exact (p.rest_suffix s).length_le
  · exact Nat.le_of_lt hlt

/-- The tokens that the second parser takes pay for its own faults. -/
theorem Thrifty.bind {p : Parser α} {f : α → Parser β} (hp : p.Thrifty)
    (hf : ∀ s a, (p.run s).outcome = .ok a → (f a).Thrifty) :
    (p >>= f).Thrifty := by
  intro s
  show ((p.run s).andThen fun a t => (f a).run t).recorded.length
    + ((p.run s).andThen fun a t => (f a).run t).rest.tokens.length ≤ _
  have hp := hp s
  unfold Reply.andThen
  split
  · rename_i a ha
    have hf := hf s a ha (p.run s).rest
    dsimp only
    rw [List.length_append]
    omega
  · exact hp

/-- If one of two parsers spares a token and the other is thrifty, both together
spare it. -/
theorem Spares.bind {p : Parser α} {f : α → Parser β} (hp : p.Spares)
    (hf : ∀ s a, (p.run s).outcome = .ok a → (f a).Spares) :
    (p >>= f).Spares := by
  intro s
  show ((p.run s).andThen fun a t => (f a).run t).recorded = []
    ∨ ((p.run s).andThen fun a t => (f a).run t).recorded.length
      + ((p.run s).andThen fun a t => (f a).run t).rest.tokens.length < _
  have hp := hp s
  unfold Reply.andThen
  split
  · rename_i a ha
    have hlength := (p.rest_suffix s).length_le
    have hthrifty := (hf s a ha).thrifty (p.run s).rest
    have hf := hf s a ha (p.run s).rest
    dsimp only
    rw [List.append_eq_nil_iff, List.length_append]
    rcases hp with hnone | hlt
    · rw [hnone, List.length_nil]
      rcases hf with hnone' | hlt'
      · exact .inl ⟨rfl, hnone'⟩
      · exact .inr (by omega)
    · exact .inr (by omega)
  · exact hp

/-- **A choice by the next token spares that token.** What follows it only has
to be thrifty, and this is the one place where a token is gained. -/
theorem spares_onNext {f : Token → Option (Parser α)} {otherwise : Parser α}
    (hf : ∀ t p, f t = some p → p.Thrifty) (ho : otherwise.Spares) :
    (onNext f otherwise).Spares := by
  intro s
  simp only [onNext]
  split
  · rename_i p hp
    obtain ⟨t, ht, htp⟩ := Option.bind_eq_some_iff.1 hp
    obtain ⟨ts, hs⟩ := List.head?_eq_some_iff.1 ht
    exact .inr (Nat.lt_of_le_of_lt (hf t p htp s.tail)
      (TokenStream.length_tail_lt hs))
  · exact ho s

end Parser

/-- **One declaration costs a token**: the statement it gives, or the fault it is
dropped for, and the faults recorded inside it are no more than the tokens that
it takes. -/
theorem Rule.length_once_le {item : Rule Stmt} (h : item.parser.Spares)
    {s : TokenStream} (hs : s.tokens ≠ []) :
    (item.once s).statements.length + (item.once s).recorded.length
        + (item.once s).rest.tokens.length ≤ s.tokens.length := by
  have hlt := item.length_once_lt hs
  have hspare : (item.run s).recorded = []
      ∨ (item.run s).recorded.length + (item.run s).rest.tokens.length
        < s.tokens.length := h s
  unfold once at hlt ⊢
  dsimp only at hlt ⊢
  split at hlt
  · dsimp only at hlt ⊢
    rcases hspare with hnone | hspare
    · rw [hnone, List.length_singleton, List.length_nil]
      omega
    · rw [List.length_singleton]
      omega
  · have hresync := (resync_isSuffix s (item.run s).rest).length_le
    dsimp only at hlt ⊢
    rw [List.length_append, List.length_singleton, List.length_nil]
    rcases hspare with hnone | hspare
    · rw [hnone, List.length_nil]
      omega
    · omega

/-- **A sequence of declarations keeps the budget**, by induction on the tokens.
What it gives is what its first declaration gives and what the others give, and
the tokens are divided between them. -/
theorem length_declarations_le (stop : Token → Bool) {item : Rule Stmt}
    (h : item.parser.Spares) (s : TokenStream) :
    (declarations stop item s).statements.length
        + (declarations stop item s).recorded.length
        + (declarations stop item s).rest.tokens.length ≤ s.tokens.length := by
  induction hlen : s.tokens.length using Nat.strongRecOn generalizing s with
  | ind n ih =>
    obtain ⟨_ | ⟨t, ts⟩, z⟩ := s
    · rw [declarations_nil]
      simp
    · cases hstop : stop t with
      | true =>
        rw [declarations_of_stop hstop, ← hlen]
        simp
      | false =>
        have hne : (TokenStream.mk (t :: ts) z).tokens ≠ [] :=
          List.cons_ne_nil t ts
        have hlt := item.length_once_lt hne
        have hle := Rule.length_once_le h hne
        have hmore := ih _ (hlen ▸ hlt) (item.once ⟨t :: ts, z⟩).rest rfl
        rw [declarations_eq_append item hstop]
        unfold Declarations.append
        dsimp only
        rw [List.length_append, List.length_append]
        omega

/-- So a sequence as a parser is thrifty, and the statements that it gives are
not even counted in this. -/
theorem Parser.thrifty_declarations {stop : Token → Bool} {item : Rule Stmt}
    (h : item.parser.Spares) : (Parser.declarations stop item).Thrifty := by
  intro s
  have hle := length_declarations_le stop h s
  show (TreeScript.declarations stop item s).recorded.length
    + (TreeScript.declarations stop item s).rest.tokens.length ≤ _
  omega

/-! ## All statements keep the budget

From here on only the combinators matter. -/

/-- **The combinators keep the budget of faults.** A sequence of declarations may
record as many faults as it takes tokens, so a block has none to spare. It stands
behind a brace, and the brace is. -/
theorem Parser.spares_kept : KeptBySequences Spares Thrifty where
  weaken := Spares.thrifty
  ret a := (quiet_pure a).spares
  bind := Spares.bind
  failHere _ := Quiet.spares fun _ => rfl
  onNext := spares_onNext
  here := Quiet.spares fun _ => rfl
  nextIs _ := Quiet.spares fun _ => rfl
  behind_bind := Thrifty.bind
  declarations := thrifty_declarations

/-- **Every declaration keeps the budget of faults**, whatever the nesting budget.
Expressions do because they record no fault at all. -/
theorem Rule.spares_declaration (b : Nat) :
    (declaration (.expression b) (.statement b)).parser.Spares :=
  (Parser.spares_kept.statement (fun b => (quiet_expression b).spares) b).2

/-! ## Programs

The statement about whole programs, for all token lists, well-formed or not. -/

/-- **Reading a program makes progress and keeps its budget of faults**, whatever
the tokens are. It is read up to the first end-of-file token, or to the end of
the list if there is none, and no further. Every parser moves the cursor
forward, at most up to there. Sequences are read one declaration at a time, at
the top and in blocks, and a declaration that is read at a token, with whatever
nesting budget, moves the cursor strictly, whether it is read or dropped. There
are at most as many statements and faults as tokens in front of the end. -/
theorem parse_progress (ts : List Token) :
    let s := TokenStream.ofTokens ts
    let finish := ts.findIdx Token.isEnd
    let item (b : Nat) := Rule.declaration (.expression b) (.statement b)
    finish ≤ ts.length ∧ s.tokens = ts.take finish
    ∧ s.program.rest = s.drop finish ∧ s.program.rest.atEnd = true
    ∧ (∀ (α : Type) (p : Parser α) (c : Nat), c ≤ finish →
      ∃ c', c ≤ c' ∧ c' ≤ finish ∧ (p.run (s.drop c)).rest = s.drop c')
    ∧ (∀ (b c : Nat), c < finish →
      (∀ stop, stop (s.drop c).here = false →
        declarations stop (item b) (s.drop c)
          = ((item b).once (s.drop c)).append
              (declarations stop (item b) ((item b).once (s.drop c)).rest))
      ∧ ∃ c', c < c' ∧ c' ≤ finish ∧ ((item b).once (s.drop c)).rest = s.drop c')
    ∧ (parse ts).statements.length + (parse ts).errors.length ≤ finish := by
  intro s finish item
  have hlen : s.tokens.length = finish := TokenStream.length_ofTokens ts
  have hrest : s.program.rest.tokens = [] := rest_program_tokens s
  refine ⟨List.findIdx_le_length, TokenStream.tokens_ofTokens_eq_take ts, ?_,
    ?_, ?_, ?_, ?_⟩
  · have hz : s.program.rest.finish = s.finish :=
      (declarations_rest_isSuffix _ _ s).2
    have hdrop : s.tokens.drop finish = [] := by rw [← hlen, List.drop_length]
    show s.program.rest = ⟨s.tokens.drop finish, s.finish⟩
    rw [hdrop, ← hrest, ← hz]
  · show s.program.rest.tokens.isEmpty = true
    rw [hrest]
    rfl
  · intro α p c hc
    rw [← hlen] at hc ⊢
    exact TokenStream.exists_cursor hc (p.rest_suffix _)
  · intro b c hc
    rw [← hlen] at hc ⊢
    have hne : (s.drop c).tokens ≠ [] := by
      rw [← List.length_pos_iff, TokenStream.length_drop]
      omega
    refine ⟨fun stop hgo => ?_, ?_⟩
    · generalize s.drop c = u at hne hgo ⊢
      obtain ⟨_ | ⟨t, us⟩, z⟩ := u
      · exact absurd rfl hne
      · exact declarations_eq_append (item b) hgo
    · exact TokenStream.exists_cursor_lt (Nat.le_of_lt hc)
        ((item b).once_rest_isSuffix _) ((item b).length_once_lt hne)
  · have hbudget := length_declarations_le (fun _ => false)
      (Rule.spares_declaration nestingBudget) s
    rw [← hlen]
    show s.program.statements.length + s.program.recorded.length ≤ _
    exact Nat.le_of_add_right_le hbudget

-- The budget is used up by braces that are never closed: each is a fault.
example : (parse ([.punctuator .leftBrace, .punctuator .leftBrace,
    .punctuator .leftBrace].map .ofKind)).errors.length = 3 := by
  cbv

end TreeScript
