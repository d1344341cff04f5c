import TreeScript.Proofs.Exec.Internal
import TreeScript.Proofs.Parser.Likeness

/-!
# Where diagnostics point

A fault is met long after the token it speaks about was read: an operator meets
operands of the wrong type, a name turns out to have no definition. The trees
keep the places of their tokens for this. That the place in a diagnostic is the
right one takes three steps.

* **Scanning** gives every token and every lexical fault a place in the text
  that is scanned (`span_of_mem_scan`).
* **Parsing** makes up no token. All that a tree or a fault keeps comes from the
  tokens, an operator comes from a punctuator with its spelling, a name from an
  identifier. This is `like_parse` for tokens that are like themselves if they
  belong to the text (`Likeness.within`). The one exception is the literal `true`
  of a loop without condition, which evaluates to a value.
* **Executing** raises errors at operators, at names and at literals, and says
  what it finds there (`Expr.Like.raises`).

Nothing is assumed about the environment, so it does not matter what other texts
were run before.

The relation between trees and tokens is not made for this module. It compares
two texts in general, and here a text is compared to itself: then all it says is
that the tokens in the tree satisfy a property, and that every operator has the
text of its token. That is the information an error takes with it.

What a diagnostic says is then read off its message, by its code
(`Diagnostic.PointsAt`). A diagnostic of the scan is left out of this, as it is
not about a token at all: its place is computed from the text.
-/

namespace TreeScript

/-! ## Places in a text

Lines are counted from one, so that a place in a text is never the unknown
place. This is all that is needed to tell the places in a text from those of
made-up tokens. -/

namespace Position

/-- A line is never left for one with a smaller number. -/
theorem line_pos_step {p : Position} (h : 0 < p.line) (c : Char) :
    0 < (p.step c).line := by
  unfold step
  split
  · exact Nat.succ_pos _
  · exact h

/-- Behind any text the line is a known one. -/
theorem line_pos_after {p : Position} (h : 0 < p.line) (cs : List Char) :
    0 < (p.after cs).line := by
  induction cs generalizing p with
  | nil => exact h
  | cons c cs ih => exact ih (line_pos_step h c)

end Position

/-- **The place lies in the named text**, and is known. -/
def Span.LiesIn (name : String) (s : Span) : Prop :=
  s.file = name ∧ s.isKnown = true

/-- A place on a known line lies in the text whose name it is given. -/
theorem Span.liesIn_ofPosition {name : String} {p : Position}
    (h : 0 < p.line) : (Span.ofPosition name p).LiesIn name := by
  refine ⟨rfl, ?_⟩
  show (p.line != 0) = true
  exact bne_iff_ne.2 (Nat.ne_of_gt h)

/-- Every segment of a text begins on a known line. -/
theorem line_pos_of_mem_locate {p q : Position} {g : Segment}
    {gs : List Segment} (hp : 0 < p.line) (h : (q, g) ∈ locate p gs) :
    0 < q.line := by
  induction gs generalizing p with
  | nil => cases h
  | cons g' gs ih =>
    rcases List.mem_cons.1 h with hhead | htail
    · rwa [(Prod.mk.inj hhead).1]
    · exact ih (Position.line_pos_after hp _) htail

/-- A warning on an escape is placed at the character behind the backslash,
inside the string. -/
theorem liesIn_unitErrors {file : String} {p : Position} (hp : 0 < p.line)
    {us : List StringUnit} {e : LexicalError} (h : e ∈ unitErrors file p us) :
    e.span.LiesIn file := by
  induction us generalizing p with
  | nil => cases h
  | cons u us ih =>
    cases u with
    | plain c => exact ih (Position.line_pos_step hp c) h
    -- The backslash and the character behind it are both passed; a warning
    -- stands between the two.
    | escape c =>
      have hq := Position.line_pos_step hp '\\'
      have hrest := Position.line_pos_step hq c
      unfold unitErrors at h
      dsimp only at h
      split at h
      · exact ih hrest h
      · rcases List.mem_cons.1 h with rfl | h
        · exact Span.liesIn_ofPosition hq
        · exact ih hrest h

/-- The faults of a segment: those of its escapes, and a string without end or a
stray character, which are placed at the front of the segment. -/
theorem Segment.liesIn_errors {file : String} {p : Position} (hp : 0 < p.line)
    {g : Segment} {e : LexicalError} (h : e ∈ g.errors file p) :
    e.span.LiesIn file := by
  have hquote := Position.line_pos_step hp '"'
  cases g with
  | string us => exact liesIn_unitErrors hquote h
  | unclosed us dangling =>
    rcases List.mem_append.1 h with h | h
    · exact liesIn_unitErrors hquote h
    · rw [List.mem_singleton.1 h]
      exact Span.liesIn_ofPosition hp
  | stray c =>
    rw [List.mem_singleton.1 h]
    exact Span.liesIn_ofPosition hp
  | blank | comment | word | number | punctuator => cases h

/-- The token of a segment begins where the segment does. -/
theorem Segment.span_of_token? {file : String} {p : Position} {g : Segment}
    {t : Token} (h : g.token? file p = some t) :
    t.span = Span.ofPosition file p := by
  cases g <;> cases h <;> rfl

/-- The text of a punctuator is its spelling. -/
theorem Segment.lexeme_of_token? {file : String} {p : Position} {g : Segment}
    {t : Token} (h : g.token? file p = some t) {m : Punctuator}
    (hm : t.kind = .punctuator m) : t.lexeme = m.text := by
  cases g with
  | punctuator m' =>
    obtain rfl := Option.some.inj h
    rw [TokenKind.punctuator.inj hm]
  | word cs =>
    obtain rfl := Option.some.inj h
    unfold wordKind at hm
    split at hm <;> cases hm
  | number | string =>
    obtain rfl := Option.some.inj h
    cases hm
  | blank | comment | unclosed | stray => cases h

section Scan

variable {source : SourceText}

/-- A token of a text is that of a segment of the text, or the end. -/
theorem mem_scan_tokens {t : Token} (h : t ∈ source.scan.tokens) :
    (∃ p g, (p, g) ∈ source.segments ∧ g.token? source.name p = some t)
      ∨ t = Token.endOfFile (source.spanAt source.finish) := by
  rcases List.mem_append.1 h with h | h
  · obtain ⟨⟨p, g⟩, hg, ht⟩ := List.mem_filterMap.1 h
    exact .inl ⟨p, g, hg, ht⟩
  · exact .inr (List.mem_singleton.1 h)

/-- **Tokens lie in the text they are scanned from.** The end of the text has a
place as well, behind its last character. -/
theorem span_of_mem_scan {t : Token} (h : t ∈ source.scan.tokens) :
    t.span.LiesIn source.name := by
  have hstart : 0 < Position.start.line := Nat.one_pos
  rcases mem_scan_tokens h with ⟨p, g, hg, ht⟩ | rfl
  · rw [g.span_of_token? ht]
    exact Span.liesIn_ofPosition (line_pos_of_mem_locate hstart hg)
  · exact Span.liesIn_ofPosition (Position.line_pos_after hstart _)

/-- Messages quote an operator by its spelling, and the token has the same text.
-/
theorem lexeme_of_mem_scan {t : Token} (h : t ∈ source.scan.tokens)
    {m : Punctuator} (hm : t.kind = .punctuator m) : t.lexeme = m.text := by
  rcases mem_scan_tokens h with ⟨p, g, hg, ht⟩ | rfl
  · exact g.lexeme_of_token? ht hm
  · cases hm

/-- **Lexical faults lie in the text that is scanned.** They need no token, so
nothing more is said about them here. -/
theorem liesIn_of_mem_errors {e : LexicalError}
    (h : e ∈ source.scan.errors) : e.span.LiesIn source.name := by
  obtain ⟨⟨p, g⟩, hg, he⟩ := List.mem_flatMap.1 h
  exact Segment.liesIn_errors (line_pos_of_mem_locate Nat.one_pos hg) he

theorem exists_isEnd_scan (source : SourceText) :
    ∃ t ∈ source.scan.tokens, t.isEnd = true :=
  ⟨.endOfFile (source.spanAt source.finish),
    List.mem_append_right _ (List.mem_singleton_self _), rfl⟩

end Scan

/-! ## Trees made of given tokens

The other direction of relating a tree to itself: a property of all expressions
that are related to anything holds of all expressions of a statement. -/

/-- What holds of every expression that is alike holds of the expressions of a
statement that is alike. -/
theorem Stmt.Like.every {L : Likeness} {P : Expr → Prop}
    (hP : ∀ e f, e.Like L f → P e) {s u : Stmt} (h : s.Like L u) :
    s.Every P := by
  refine h.induction (P := fun s _ => s.Every P) ?block ?expression ?branch
    ?print ?define ?loop
  case block =>
    intro a b ss us h
    exact .block (Parser.forall_mem_of_forall₂ h)
  case expression => exact fun h => .expression (hP _ _ h)
  case branch =>
    intro a b c d s u e f hc hs he
    exact .branch (hP _ _ hc) hs (Parser.forall_mem_of_rel he)
  case print => exact fun h => .print (hP _ _ h)
  case define =>
    intro a b n k e f _ _ he
    refine .define fun e' he' => ?_
    obtain rfl := he'
    cases he with
    | some h => exact hP _ _ h
  case loop => exact fun hc hs => .loop (hP _ _ hc) hs

/-! ## Errors and the tokens they speak about

An error does not keep its token, only the place of it and a text. That it is
founded on a token says that both belong together. -/

/-- **The error is founded on a token** that satisfies `T`: it has the place of
the token, and what it says stands there. The internal error has no constructor
here, which is as much as to say that it does not occur. -/
inductive RuntimeError.Founded (T : Token → Prop) : RuntimeError → Prop
  | typeMismatch {t : Token} {m : Punctuator} {expected : String}
      {x y : ValueType} (ht : T t) (hm : t.kind = .punctuator m) :
      Founded T ⟨t.span, .typeMismatch m.text expected x y⟩
  | unaryTypeMismatch {t : Token} {m : Punctuator} {x : ValueType} (ht : T t)
      (hm : t.kind = .punctuator m) :
      Founded T ⟨t.span, .unaryTypeMismatch m.text x⟩
  | undefinedVariable {t : Token} (ht : T t) (hk : t.kind = .identifier) :
      Founded T ⟨t.span, .undefinedVariable t.lexeme⟩

/-- What stopped the execution is founded on a token, if it is an error. -/
def Halt.Founded (T : Token → Prop) : Halt → Prop
  | .error e => e.Founded T
  | .tooManyRounds => True

section Founded

variable {T : Token → Prop}

/-- The operator was read from a punctuator and keeps its place. The error takes
both. -/
theorem UnaryOp.founded_apply {op oq : Located UnaryOp}
    (hop : op.Like (.within T) UnaryOp.text oq) (v : Value) :
    ∀ x, UnaryOp.apply op v = .error x → x.Founded T := by
  intro x hx
  rw [UnaryOp.apply_error hx]
  obtain ⟨h, hm, htext⟩ := hop
  dsimp only
  rw [htext]
  exact .unaryTypeMismatch h.2 hm

theorem BinaryOp.founded_apply {op oq : Located BinaryOp}
    (hop : op.Like (.within T) BinaryOp.text oq) (x y : Value) :
    ∀ e, BinaryOp.apply op x y = .error e → e.Founded T := by
  intro e he
  obtain ⟨expected, rfl⟩ := BinaryOp.apply_error he
  obtain ⟨h, hm, htext⟩ := hop
  unfold mismatch
  dsimp only
  rw [htext]
  exact .typeMismatch h.2 hm

/-- **Errors of an expression are founded on the tokens it was read from**, if
the literals among these stand for values. An operator was read from a
punctuator and a name from an identifier, and the error takes place and text
from there. A literal would raise an error without such a token, which is why it
has to have a value. -/
theorem Expr.Like.raises (hT : ∀ t, T t → DenotesIfLiteral t) {e f : Expr}
    (h : e.Like (.within T) f) : e.Raises (Halt.Founded T) := by
  induction h with
  | literal h hkind =>
    intro env x hx
    obtain ⟨v, hv⟩ := hT _ h.2 (Grammar.isLiteral_iff.1 hkind)
    cases hv.symm.trans hx
  -- The literal of a loop without condition has no token in the text, but it
  -- raises no error either.
  | truth =>
    intro env x hx
    cases hx
  | reference hn hkind =>
    intro env x hx
    unfold Expr.eval at hx
    split at hx <;> cases hx
    exact .undefinedVariable hn.2 hkind
  | grouping _ ih => exact ih
  | assign hn hkind _ ih =>
    intro env
    rw [eval_assign]
    refine andThen_error (ih env) fun v env x hx => ?_
    unfold store at hx
    split at hx <;> cases hx
    exact .undefinedVariable hn.2 hkind
  | unary hop _ ih =>
    intro env
    rw [eval_unary]
    exact andThen_error (ih env) fun v _ => UnaryOp.founded_apply hop v
  | binary hop _ _ ihl ihr =>
    intro env
    rw [eval_binary]
    exact andThen_error (ihl env) fun x env =>
      andThen_error (ihr env) fun y _ => BinaryOp.founded_apply hop x y

end Founded

/-! ## Runs

The two halves are put together: the parse makes trees of tokens of the text,
and errors of such trees are founded on these tokens. -/

section Runs

variable (source : SourceText)

/-- Parsing a text keeps only what belongs to it. -/
theorem like_parse_scan :
    let L := Likeness.within (· ∈ source.scan.tokens)
    (∀ s ∈ (parse source.scan.tokens).statements, s.Like L s)
      ∧ ∀ e ∈ (parse source.scan.tokens).errors, e.Like L e := by
  intro L
  have hself : List.Forall₂ L.rel source.scan.tokens source.scan.tokens :=
    List.forall₂_same.2 fun t ht => ⟨rfl, ht⟩
  obtain ⟨hstatements, herrors⟩ := like_parse hself (exists_isEnd_scan source)
  exact ⟨List.forall₂_same.1 hstatements, List.forall₂_same.1 herrors⟩

/-- **What stops a run is founded on a token of its text.** This holds of
statements one by one, whatever the state in which they are reached, so the
environment at the start is arbitrary. -/
theorem founded_execAll (rounds : Nat) (m : Machine) :
    ∀ x, (Stmt.execAll rounds (parse source.scan.tokens).statements m).1
      = .error x → x.Founded (· ∈ source.scan.tokens) := by
  refine Stmt.execAll_error (fun s hs m => ?_) m
  have hlike := (like_parse_scan source).1 s hs
  exact Stmt.exec_error trivial (fun _ h => h)
    (hlike.every fun e f he => he.raises fun t => denotes_scan source) m

end Runs

/-- **The diagnostic points at the token it speaks about**: it has the place of
the token, and by its code it says one of four things. -/
inductive Diagnostic.PointsAt (d : Diagnostic) (t : Token) : Prop
  /-- The token was found where another was expected, or nests too deeply. The
  message ends with it. -/
  | found (hspan : d.span = t.span)
      (hcode : d.code ∈ ["E101", "E102", "E103", "E105"].map some)
      (hmessage : ∃ front, d.message = front ++ t.quoted)
  /-- What stands in front of the equal sign cannot be assigned to. -/
  | target (hspan : d.span = t.span) (hcode : d.code = some "E104")
      (hkind : t.kind = .punctuator .equal)
  /-- The operator is not defined for its operands. The message names it. -/
  | operator (hspan : d.span = t.span) (hcode : d.code = some "E201")
      (hkind : ∃ m, t.kind = .punctuator m)
      (hmessage : ∃ front ∈ ["operand of `", "operands of `"], ∃ back,
        d.message = front ++ t.lexeme ++ "` must be " ++ back)
  /-- The name has no definition. The message names it. -/
  | name (hspan : d.span = t.span) (hcode : d.code = some "E202")
      (hkind : t.kind = .identifier)
      (hmessage : d.message = "undefined variable `" ++ t.lexeme ++ "`")

/-- Whatever it says of the token, its place is that of the token. -/
theorem Diagnostic.PointsAt.span_eq {d : Diagnostic} {t : Token}
    (h : d.PointsAt t) : d.span = t.span := by
  cases h <;> assumption

/-- Faults of the grammar point at the token they keep. -/
theorem ParseError.Like.pointsAt {T : Token → Prop} {e f : ParseError}
    (h : e.Like (.within T) f) : ∃ t, T t ∧ e.diagnostic.PointsAt t := by
  cases h with
  | expectedExpression h => exact ⟨_, h.2, .found rfl (.head _) ⟨_, rfl⟩⟩
  | expectedPunctuator h =>
    exact ⟨_, h.2, .found rfl (.tail _ (.head _)) ⟨_, rfl⟩⟩
  | expectedVariableName h =>
    exact ⟨_, h.2, .found rfl (.tail _ (.tail _ (.head _))) ⟨_, rfl⟩⟩
  | nestingTooDeep h =>
    exact ⟨_, h.2, .found rfl (.tail _ (.tail _ (.tail _ (.head _)))) ⟨_, rfl⟩⟩
  | invalidAssignmentTarget h hk => exact ⟨_, h.2, .target rfl rfl hk⟩

section Messages

variable (operator expected : String) (x y : ValueType)

/-- The message with the operator in its middle, as the parts that `PointsAt`
asks for. -/
theorem message_typeMismatch :
    (RuntimeFault.typeMismatch operator expected x y).message
      = "operands of `" ++ operator ++ "` must be "
        ++ (expected ++ ", but got " ++ x.name ++ " and " ++ y.name) := by
  unfold RuntimeFault.message
  simp only [String.append_assoc]

theorem message_unaryTypeMismatch :
    (RuntimeFault.unaryTypeMismatch operator x).message
      = "operand of `" ++ operator ++ "` must be "
        ++ ("a number, but got " ++ x.name) := by
  have hfront : "` must be a number, but got "
      = "` must be " ++ "a number, but got " := rfl
  unfold RuntimeFault.message
  rw [hfront]
  simp only [String.append_assoc]

end Messages

/-- Runtime errors point at the token they are founded on. -/
theorem RuntimeError.Founded.pointsAt {source : SourceText} {e : RuntimeError}
    (h : e.Founded (· ∈ source.scan.tokens)) :
    ∃ t ∈ source.scan.tokens, e.diagnostic.PointsAt t := by
  cases h with
  | @typeMismatch t m expected x y ht hm =>
    have hmessage := message_typeMismatch m.text expected x y
    rw [← lexeme_of_mem_scan ht hm] at hmessage ⊢
    exact ⟨t, ht, .operator rfl rfl ⟨m, hm⟩
      ⟨"operands of `", .tail _ (.head _), _, hmessage⟩⟩
  | @unaryTypeMismatch t m x ht hm =>
    have hmessage := message_unaryTypeMismatch m.text x
    rw [← lexeme_of_mem_scan ht hm] at hmessage ⊢
    exact ⟨t, ht, .operator rfl rfl ⟨m, hm⟩
      ⟨"operand of `", .head _, _, hmessage⟩⟩
  | undefinedVariable ht hk => exact ⟨_, ht, .name rfl rfl hk rfl⟩

/-- **Every diagnostic of a run points into the text that is run.** Whatever the
text and the state are, and however many rounds loops may take: a diagnostic lies
at a known place in a text of this name. It tells of a lexical fault, or it
points at a token of the text. -/
theorem diagnostics_point_at_tokens (source : SourceText) (rounds : Nat)
    (env : Env) :
    ∀ d ∈ (source.run rounds env).diagnostics,
      d.span.file = source.name ∧ d.span.isKnown = true
      ∧ ((d.kind = .lexical ∧ d.code ∈ ["E001", "E002", "E003"].map some)
        ∨ ∃ t ∈ source.scan.tokens, d.PointsAt t) := by
  intro d hd
  have htoken : (∃ t ∈ source.scan.tokens, d.PointsAt t) →
      d.span.LiesIn source.name := by
    rintro ⟨t, ht, hpoints⟩
    rw [hpoints.span_eq]
    exact span_of_mem_scan ht
  -- Where a token is pointed at, the place follows from that of the token.
  suffices h : (d.kind = .lexical ∧ d.code ∈ ["E001", "E002", "E003"].map some
      ∧ d.span.LiesIn source.name) ∨ ∃ t ∈ source.scan.tokens, d.PointsAt t by
    rcases h with ⟨hkind, hcode, hlies⟩ | hpoints
    · exact ⟨hlies.1, hlies.2, .inl ⟨hkind, hcode⟩⟩
    · exact ⟨(htoken hpoints).1, (htoken hpoints).2, .inr hpoints⟩
  rw [source.diagnostics_run] at hd
  rcases List.mem_append.1 hd with hd | hd
  · rcases List.mem_append.1 hd with hd | hd
    · obtain ⟨e, he, rfl⟩ := List.mem_map.1 hd
      refine .inl ⟨rfl, ?_, liesIn_of_mem_errors he⟩
      obtain ⟨span, fault⟩ := e
      cases fault <;> simp [LexicalError.diagnostic, LexicalFault.code]
    · obtain ⟨e, he, rfl⟩ := List.mem_map.1 hd
      exact .inr ((like_parse_scan source).2 e he).pointsAt
  · have hfounded := founded_execAll source rounds (source.start env)
    unfold haltDiagnostics at hd
    split at hd
    · rename_i e he
      rw [List.mem_singleton.1 hd]
      exact .inr (hfounded _ he).pointsAt
    · cases hd

/-- A text with an operator on its second line that does not fit its
operands. -/
def sumOfNils : SourceText := ⟨"script", "nil\n+ nil;"⟩

/-- The sum is reported at its operator, which is a token of the text. -/
theorem sumOfNils_points_at_operator :
    let d : Diagnostic := RuntimeError.diagnostic ⟨⟨"script", 2, 1⟩,
      .typeMismatch "+" "two numbers or two strings" .nil .nil⟩
    d ∈ (sumOfNils.run 0 {}).diagnostics
      ∧ d.span.file = "script" ∧ d.span.isKnown = true
      ∧ ((d.kind = .lexical ∧ d.code ∈ ["E001", "E002", "E003"].map some)
        ∨ ∃ t ∈ sumOfNils.scan.tokens, d.PointsAt t) := by
  intro d
  have hstatements : (parse sumOfNils.scan.tokens).statements
      = [.expression ⟨"script", 1, 1⟩ (.binary ⟨⟨"script", 2, 1⟩, .add⟩
          (.literal ⟨.keyword .nilKw, "nil", ⟨"script", 1, 1⟩⟩)
          (.literal ⟨.keyword .nilKw, "nil", ⟨"script", 2, 3⟩⟩))] := by
    cbv
  have hd : d ∈ (sumOfNils.run 0 {}).diagnostics := by
    rw [SourceText.diagnostics_run, hstatements]
    exact List.mem_append_right _ (List.mem_singleton_self d)
  exact ⟨hd, diagnostics_point_at_tokens sumOfNils 0 {} d hd⟩

end TreeScript
