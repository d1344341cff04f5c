import TreeScript.Parser.Error

/-!
# Parsers over tokens

A parser reads tokens from the front of a `TokenStream`. Its reply is a value or
a fault, the faults recorded on the way, and the tokens that are left
(`Reply`). A failed parser also leaves tokens behind, since reading resumes
from the place where it failed.

A parser never puts tokens back: what it leaves is a suffix of what it was
given (`Parser.rest_suffix`). A **rule** is a parser that takes at least one
token when it succeeds (`Rule.advances`). The two facts are carried by the
types because the loops of the grammar end for these reasons.
-/

namespace TreeScript

/-! ## Token streams -/

/-- **Tokens to be read**, with the end-of-file token that stands behind
them. -/
structure TokenStream where
  /-- The tokens in front of the end. -/
  tokens : List Token
  /-- The end-of-file token. -/
  finish : Token
deriving Repr, DecidableEq, Inhabited

namespace TokenStream

/-- The stream of a token list. Whatever follows the first end-of-file token is
ignored. A list without one gets an end-of-file token at the place of its
last token. -/
def ofTokens (ts : List Token) : TokenStream where
  tokens := ts.takeWhile (fun t => !t.isEnd)
  finish :=
    match ts.find? Token.isEnd with
    | some t => t
    | none => Token.endOfFile ((ts.getLast?.map Token.span).getD Span.unknown)

/-- The next token, which is the end-of-file token if no other is left. -/
def here (s : TokenStream) : Token := s.tokens.headD s.finish

/-- Whether only the end-of-file token is left. -/
def atEnd (s : TokenStream) : Bool := s.tokens.isEmpty

/-- `s` is what is left of `t` after reading some tokens. -/
def IsSuffix (s t : TokenStream) : Prop :=
  s.tokens <:+ t.tokens ∧ s.finish = t.finish

namespace IsSuffix

theorem refl (s : TokenStream) : s.IsSuffix s :=
  ⟨List.suffix_refl _, rfl⟩

theorem trans {s t u : TokenStream} (h : s.IsSuffix t) (k : t.IsSuffix u) :
    s.IsSuffix u :=
  ⟨h.1.trans k.1, h.2.trans k.2⟩

theorem length_le {s t : TokenStream} (h : s.IsSuffix t) :
    s.tokens.length ≤ t.tokens.length :=
  h.1.length_le

end IsSuffix

/-- The stream without its first token. -/
def tail (s : TokenStream) : TokenStream := { s with tokens := s.tokens.tail }

theorem tail_isSuffix (s : TokenStream) : s.tail.IsSuffix s :=
  ⟨List.tail_suffix _, rfl⟩

theorem length_tail_lt {s : TokenStream} {t : Token} {ts : List Token}
    (h : s.tokens = t :: ts) : s.tail.tokens.length < s.tokens.length := by
  simp [tail, h]

end TokenStream

/-! ## Replies -/

/-- **What a parser answers.** -/
structure Reply (α : Type) where
  /-- The value, or the fault that stopped the parser. -/
  outcome : Except ParseError α
  /-- The faults of malformed declarations that were dropped on the way. -/
  recorded : List ParseError
  /-- What is left to read. -/
  rest : TokenStream
deriving Repr

/-- Goes on from a reply: a fault stays, a value is handed on with what is
left. -/
def Reply.andThen {α β : Type} (r : Reply α)
    (f : α → TokenStream → Reply β) : Reply β :=
  match r.outcome with
  | .ok a =>
    let q := f a r.rest
    ⟨q.outcome, r.recorded ++ q.recorded, q.rest⟩
  | .error e => ⟨.error e, r.recorded, r.rest⟩

theorem Reply.andThen_rest_isSuffix {α β : Type} (r : Reply α)
    (f : α → TokenStream → Reply β) {s : TokenStream}
    (hr : r.rest.IsSuffix s) (hf : ∀ a t, (f a t).rest.IsSuffix t) :
    (r.andThen f).rest.IsSuffix s := by
  unfold andThen
  split
  · exact (hf _ _).trans hr
  · exact hr

/-! ## Parsers -/

/-- **A parser**: what it leaves is a suffix of what it was given. -/
structure Parser (α : Type) where
  /-- The answer to a stream. -/
  run : TokenStream → Reply α
  /-- Tokens are only taken from the front. -/
  rest_suffix : ∀ s, (run s).rest.IsSuffix s

namespace Parser

variable {α β : Type}

/-- The parser that takes nothing and answers `a`. -/
def ret (a : α) : Parser α where
  run s := ⟨.ok a, [], s⟩
  rest_suffix s := .refl s

/-- One parser after another. -/
def andThen (p : Parser α) (f : α → Parser β) : Parser β where
  run s := (p.run s).andThen (fun a t => (f a).run t)
  rest_suffix s :=
    Reply.andThen_rest_isSuffix _ _ (p.rest_suffix s)
      (fun a t => (f a).rest_suffix t)

instance : Monad Parser where
  pure := ret
  bind := andThen

/-- The parser that fails with a fault. -/
def fail (e : ParseError) : Parser α where
  run s := ⟨.error e, [], s⟩
  rest_suffix s := .refl s

/-- The next token, without taking it. -/
def here : Parser Token where
  run s := ⟨.ok s.here, [], s⟩
  rest_suffix s := .refl s

/-- Fails with a fault at the next token. -/
def failHere (f : Token → ParseError) : Parser α where
  run s := ⟨.error (f s.here), [], s⟩
  rest_suffix s := .refl s

/-- **A choice by the next token.** If `f` has a parser for it, takes the token
and goes on with that parser; otherwise, and at the end, runs `otherwise`. -/
def onNext (f : Token → Option (Parser α)) (otherwise : Parser α) :
    Parser α where
  run s :=
    match s.tokens.head?.bind f with
    | some p => p.run s.tail
    | none => otherwise.run s
  rest_suffix s := by
    split
    · exact (Parser.rest_suffix _ _).trans s.tail_isSuffix
    · exact otherwise.rest_suffix s

/-- Whether the next token is a given punctuator. -/
def nextIs (m : Punctuator) : Parser Bool where
  run s := ⟨.ok (s.tokens.head?.map Token.kind == some (.punctuator m)), [], s⟩
  rest_suffix s := .refl s

/-- Takes the next token if it is a given punctuator. -/
def accept (m : Punctuator) : Parser (Option Token) :=
  onNext
    (fun t => if t.kind = .punctuator m then some (pure (some t)) else none)
    (pure none)

/-- Takes a given punctuator, and fails if another token comes next. -/
def expect (m : Punctuator) (context : String) : Parser Unit :=
  onNext (fun t => if t.kind = .punctuator m then some (pure ()) else none)
    (failHere (.expectedPunctuator m context))

/-- The parser takes at least one token whenever it succeeds. -/
def Advances (p : Parser α) : Prop :=
  ∀ s a, (p.run s).outcome = .ok a →
    (p.run s).rest.tokens.length < s.tokens.length

theorem advances_failHere (f : Token → ParseError) :
    (failHere f : Parser α).Advances := by
  intro s a h
  cases h

theorem Advances.bind {p : Parser α} (hp : p.Advances) (f : α → Parser β) :
    (p >>= f).Advances := by
  intro s b h
  simp only [Bind.bind, andThen, Reply.andThen] at h ⊢
  split at h
  · rename_i a ha
    exact Nat.lt_of_le_of_lt ((f a).rest_suffix _).length_le (hp s a ha)
  · cases h

theorem Advances.onNext (f : Token → Option (Parser α)) {otherwise : Parser α}
    (h : otherwise.Advances) : (onNext f otherwise).Advances := by
  intro s a ha
  simp only [Parser.onNext] at ha ⊢
  split at ha
  · rename_i p hp
    cases ht : s.tokens with
    | nil => simp [ht] at hp
    | cons t ts =>
      rw [← ht]
      exact Nat.lt_of_le_of_lt (p.rest_suffix _).length_le
        (TokenStream.length_tail_lt ht)
  · exact h s a ha

theorem advances_here_bind {f : Token → Parser α}
    (h : ∀ t, (f t).Advances) : (here >>= f).Advances := by
  intro s a ha
  exact h s.here s a ha

end Parser

/-- **A rule of the grammar**: a parser that takes at least one token whenever
it succeeds. -/
structure Rule (α : Type) where
  /-- The parser. -/
  parser : Parser α
  /-- It does not succeed on nothing. -/
  advances : parser.Advances

/-- The answer of a rule to a stream. -/
abbrev Rule.run {α : Type} (r : Rule α) (s : TokenStream) : Reply α :=
  r.parser.run s

/-- The rule that stands for all that nests too deeply. -/
def Rule.tooDeep {α : Type} : Rule α where
  parser := .failHere .nestingTooDeep
  advances := Parser.advances_failHere _

end TreeScript
