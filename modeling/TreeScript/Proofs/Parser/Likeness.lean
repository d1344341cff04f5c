import TreeScript.Proofs.Parser.Progress

/-!
# Reading tokens that are alike

A parser decides by the kinds of tokens and by nothing else. Their texts and
places go into the trees and faults that it gives, and are never looked at. So
if the tokens of two streams are alike, one by one, then all that is read from
them is alike: the trees, the faults, and what is left (`like_parse`).

What it means for tokens to be alike is left open: a `Likeness` is any relation
between tokens of the same kind, and trees are alike if they have the same shape
over tokens that are alike. One theorem then serves several ends, each with a
likeness of its own.

* Tokens are alike if they have the same text. Then trees are alike if they are
  the same up to places, and what is read does not depend on how the tokens are
  laid out in lines.
* A token is like itself if it belongs to a given text. Then a tree is like
  itself if all that it keeps of tokens comes from that text, and so a tree or a
  fault that is read speaks of the text it was read from.
* A token is like another if it bears the number of the other one in a list. Then
  the faults in one list tell where those in the other are.

Trees keep more of their tokens than what `Likeness.rel` says of any two of them:
an operator is spelled as its punctuator, a name is an identifier, and the fault
of an assignment is at an equal sign. The relations between trees and faults have
this in their constructors, as the evaluation of trees relies on it.

That reading is a congruence of likeness has three parts: what it makes of the
combinators (`Parser.Like.bind` and so on), of chains and of sequences, which loop
and are followed by induction on the tokens, and of the trees. The rules of the
grammar are not looked at.
-/

namespace TreeScript

/-- Places of tokens that are alike. Trees keep the places of tokens that they
do not keep themselves, such as the words that begin statements. -/
def Likeness.spans (L : Likeness) (a b : Span) : Prop :=
  ∃ t u, L.rel t u ∧ a = t.span ∧ b = u.span

/-- The places of two tokens that are alike are such places. -/
theorem Likeness.spans_of_rel {L : Likeness} {t u : Token} (h : L.rel t u) :
    L.spans t.span u.span :=
  ⟨t, u, h, rfl, rfl⟩

/-! ## Trees, faults and streams

Each relation has one constructor for each constructor of what it relates, so a
tree is like another only if it is built in the same way. What the constructors
add to this is said of the tokens in them. -/

/-- **The same operator, read from punctuators that are alike** and that have its
spelling. -/
inductive Located.Like (L : Likeness) {α : Type} (text : α → String) :
    Located α → Located α → Prop
  | mk {t u : Token} {m : Punctuator} {op : α} (h : L.rel t u)
      (hm : t.kind = .punctuator m) (htext : text op = m.text) :
      Like L text ⟨t.span, op⟩ ⟨u.span, op⟩

/-- **Expressions of the same shape** over tokens that are alike. The literal
`true` may also stand for a missing condition, and then it is at the place of
the loop and not that of a token of this kind. -/
inductive Expr.Like (L : Likeness) : Expr → Expr → Prop
  | assign {n k : Token} {e f : Expr} (hn : L.rel n k)
      (hkind : n.kind = .identifier) (h : Like L e f) :
      Like L (.assign n e) (.assign k f)
  | binary {op oq : Located BinaryOp} {l r l' r' : Expr}
      (hop : op.Like L BinaryOp.text oq) (hl : Like L l l') (hr : Like L r r') :
      Like L (.binary op l r) (.binary oq l' r')
  | grouping {e f : Expr} (h : Like L e f) : Like L (.grouping e) (.grouping f)
  | literal {t u : Token} (h : L.rel t u) (hkind : t.kind.isLiteral = true) :
      Like L (.literal t) (.literal u)
  | truth {a b : Span} (h : L.spans a b) :
      Like L (.literal ⟨.keyword .trueKw, "true", a⟩)
        (.literal ⟨.keyword .trueKw, "true", b⟩)
  | unary {op oq : Located UnaryOp} {e f : Expr}
      (hop : op.Like L UnaryOp.text oq) (h : Like L e f) :
      Like L (.unary op e) (.unary oq f)
  | reference {n k : Token} (hn : L.rel n k) (hkind : n.kind = .identifier) :
      Like L (.reference n) (.reference k)

/-- **Statements of the same shape** over tokens that are alike. A `for` loop is
no constructor of statements, so nothing is said of it here: it is alike as the
block that it stands for. -/
inductive Stmt.Like (L : Likeness) : Stmt → Stmt → Prop
  | block {a b : Span} {ss us : List Stmt} (hspan : L.spans a b)
      (h : List.Forall₂ (Like L) ss us) : Like L (.block a ss) (.block b us)
  | expression {a b : Span} {e f : Expr} (hspan : L.spans a b)
      (h : e.Like L f) : Like L (.expression a e) (.expression b f)
  | branch {a b : Span} {c d : Expr} {s u : Stmt} {e f : Option Stmt}
      (hspan : L.spans a b) (hc : c.Like L d) (hs : Like L s u)
      (he : Option.Rel (Like L) e f) :
      Like L (.branch a c s e) (.branch b d u f)
  | print {a b : Span} {e f : Expr} (hspan : L.spans a b) (h : e.Like L f) :
      Like L (.print a e) (.print b f)
  | define {a b : Span} {n k : Token} {e f : Option Expr}
      (hspan : L.spans a b) (hn : L.rel n k) (hkind : n.kind = .identifier)
      (h : Option.Rel (Expr.Like L) e f) :
      Like L (.define a n e) (.define b k f)
  | loop {a b : Span} {c d : Expr} {s u : Stmt} (hspan : L.spans a b)
      (hc : c.Like L d) (hs : Like L s u) : Like L (.loop a c s) (.loop b d u)

/-- **Induction on statements that are alike**: those of blocks, the parts of a
branch and the bodies of loops come first. Statements are nested in lists and in
options, so the recursor has three motives; here there is one, and lists and
options are spoken about by relations. -/
theorem Stmt.Like.induction {L : Likeness} {P : Stmt → Stmt → Prop}
    (block : ∀ {a b : Span} {ss us : List Stmt}, List.Forall₂ P ss us →
      P (.block a ss) (.block b us))
    (expression : ∀ {a b : Span} {e f : Expr}, e.Like L f →
      P (.expression a e) (.expression b f))
    (branch : ∀ {a b : Span} {c d : Expr} {s u : Stmt} {e f : Option Stmt},
      c.Like L d → P s u → Option.Rel P e f →
      P (.branch a c s e) (.branch b d u f))
    (print : ∀ {a b : Span} {e f : Expr}, e.Like L f →
      P (.print a e) (.print b f))
    (define : ∀ {a b : Span} {n k : Token} {e f : Option Expr}, L.rel n k →
      n.kind = .identifier → Option.Rel (Expr.Like L) e f →
      P (.define a n e) (.define b k f))
    (loop : ∀ {a b : Span} {c d : Expr} {s u : Stmt}, c.Like L d → P s u →
      P (.loop a c s) (.loop b d u))
    {s u : Stmt} (h : s.Like L u) : P s u :=
  @Stmt.Like.rec L (fun s u _ => P s u) (fun ss us _ => List.Forall₂ P ss us)
    (fun e f _ => Option.Rel P e f)
    (fun _ _ h => block h) (fun _ h => expression h)
    (fun _ hc _ _ hs he => branch hc hs he) (fun _ h => print h)
    (fun _ hn hkind h => define hn hkind h) (fun _ hc _ hs => loop hc hs)
    .nil (fun _ _ h hs => .cons h hs) (fun _ h => .some h) .none s u h

/-- **The same fault** at tokens that are alike. An invalid target of an
assignment is reported at an equal sign. -/
inductive ParseError.Like (L : Likeness) : ParseError → ParseError → Prop
  | expectedExpression {t u : Token} (h : L.rel t u) :
      Like L (.expectedExpression t) (.expectedExpression u)
  | expectedPunctuator {t u : Token} {m : Punctuator} {context : String}
      (h : L.rel t u) :
      Like L (.expectedPunctuator m context t) (.expectedPunctuator m context u)
  | expectedVariableName {t u : Token} (h : L.rel t u) :
      Like L (.expectedVariableName t) (.expectedVariableName u)
  | invalidAssignmentTarget {t u : Token} (h : L.rel t u)
      (hkind : t.kind = .punctuator .equal) :
      Like L (.invalidAssignmentTarget t) (.invalidAssignmentTarget u)
  | nestingTooDeep {t u : Token} (h : L.rel t u) :
      Like L (.nestingTooDeep t) (.nestingTooDeep u)

/-- **Streams of tokens that are alike**, one by one. Their ends are alike too:
a fault can be at the end-of-file token. -/
inductive TokenStream.Like (L : Likeness) : TokenStream → TokenStream → Prop
  | mk {ts us : List Token} {z y : Token} (hts : List.Forall₂ L.rel ts us)
      (hz : L.rel z y) : Like L ⟨ts, z⟩ ⟨us, y⟩

section Streams

variable {L : Likeness} {s u : TokenStream}

namespace TokenStream.Like

/-- Streams that are alike are equally long, so the loops of the grammar end
together. -/
theorem length_eq (h : s.Like L u) : s.tokens.length = u.tokens.length := by
  obtain ⟨hts, -⟩ := h
  exact hts.length_eq

theorem tail (h : s.Like L u) : s.tail.Like L u.tail := by
  obtain ⟨hts, hz⟩ := h
  cases hts with
  | nil => exact ⟨.nil, hz⟩
  | cons _ hts => exact ⟨hts, hz⟩

theorem here (h : s.Like L u) : L.rel s.here u.here := by
  obtain ⟨hts, hz⟩ := h
  cases hts with
  | nil => exact hz
  | cons ht _ => exact ht

/-- Whatever the next token is, its kind is the same. -/
theorem head_kind (h : s.Like L u) :
    s.tokens.head?.map Token.kind = u.tokens.head?.map Token.kind := by
  obtain ⟨hts, -⟩ := h
  cases hts with
  | nil => rfl
  | cons ht _ => exact congrArg some (L.kind_eq ht)

end TokenStream.Like

/-- Recovery asks of a token whether it begins a declaration and whether it is a
semicolon. Both are asked of its kind. -/
theorem Likeness.startsDeclaration_eq {t u : Token} (h : L.rel t u) :
    t.startsDeclaration = u.startsDeclaration := by
  unfold Token.startsDeclaration
  rw [L.kind_eq h]

theorem Likeness.isSemicolon_eq {t u : Token} (h : L.rel t u) :
    t.isSemicolon = u.isSemicolon := by
  unfold Token.isSemicolon
  rw [L.kind_eq h]

/-- Skipping drops as many tokens on both sides. -/
theorem like_skipDeclaration {ts us : List Token}
    (h : List.Forall₂ L.rel ts us) :
    List.Forall₂ L.rel (skipDeclaration ts) (skipDeclaration us) := by
  induction h with
  | nil => exact .nil
  | cons ht hts ih =>
    unfold skipDeclaration
    rw [L.startsDeclaration_eq ht, L.isSemicolon_eq ht]
    split
    · exact .cons ht hts
    split
    · exact hts
    · exact ih

/-- Reading resumes at tokens that are alike. Whether the declaration took a
token is asked of lengths, which are equal. -/
theorem like_resync {r q : TokenStream} (h : s.Like L u) (hr : r.Like L q) :
    (resync s r).Like L (resync u q) := by
  unfold resync
  rw [hr.length_eq, h.length_eq]
  obtain ⟨hts, hz⟩ := hr
  split
  · cases hts with
    | nil => exact ⟨.nil, hz⟩
    | cons ht hts =>
      refine ⟨?_, hz⟩
      rw [L.isSemicolon_eq ht]
      split
      · exact hts
      · exact like_skipDeclaration hts
  · exact ⟨like_skipDeclaration hts, hz⟩

end Streams

/-! ## Parsers

Here are the combinators that never loop. That reading is a function of the
kinds enters only where a parser looks at a token, in `like_nextIs` and
`like_onNext`. -/

section Replies

variable {α β : Type} {L : Likeness} {R : α → α → Prop} {Q : β → β → Prop}

/-- Answers that are related by `R`, or faults that are alike. -/
inductive AnswerLike (L : Likeness) (R : α → α → Prop) :
    Except ParseError α → Except ParseError α → Prop
  | ok {a b : α} (h : R a b) : AnswerLike L R (.ok a) (.ok b)
  | error {e f : ParseError} (h : e.Like L f) :
      AnswerLike L R (.error e) (.error f)

/-- **Replies that are alike**: in their answers, in the faults recorded on the
way, and in what is left. The relation between answers is a parameter, since
parsers answer with all kinds of parts of trees. -/
structure Reply.Like (L : Likeness) (R : α → α → Prop) (r q : Reply α) :
    Prop where
  /-- The answers. -/
  outcome : AnswerLike L R r.outcome q.outcome
  /-- The faults recorded on the way. -/
  recorded : List.Forall₂ (ParseError.Like L) r.recorded q.recorded
  /-- What is left. -/
  rest : r.rest.Like L q.rest

/-- **Going on from replies that are alike.** Either both have a fault, and it is
the reply of the whole, or both go on, from answers and rests that are alike. This
is the step of every sequence, and of the loops in chains as well. -/
theorem Reply.Like.andThen {r q : Reply α} {f g : α → TokenStream → Reply β}
    (h : r.Like L R q)
    (hf : ∀ a b, R a b → (f a r.rest).Like L Q (g b q.rest)) :
    (r.andThen f).Like L Q (q.andThen g) := by
  obtain ⟨o, recorded, rest⟩ := r
  obtain ⟨o', recorded', rest'⟩ := q
  obtain ⟨ho, hrecorded, hrest⟩ := h
  cases ho with
  | error he => exact ⟨.error he, hrecorded, hrest⟩
  | ok hab =>
    obtain ⟨ho, hmore, hrest⟩ := hf _ _ hab
    exact ⟨ho, List.rel_append hrecorded hmore, hrest⟩

end Replies

namespace Parser

variable {α β : Type} {L : Likeness} {R : α → α → Prop} {Q : β → β → Prop}

/-- **Parsers that read alike**: on streams that are alike, they give replies
that are alike. Two parsers are needed, not one on two streams, because rules hand
on what they have taken: what follows a word keeps the place of that word. -/
def Like (L : Likeness) (R : α → α → Prop) (p q : Parser α) : Prop :=
  ∀ s u, s.Like L u → (p.run s).Like L R (q.run u)

theorem like_pure {a b : α} (h : R a b) :
    Like L R (pure a : Parser α) (pure b) :=
  fun _ _ hs => ⟨.ok h, .nil, hs⟩

/-- The same fault twice. It is needed for assignments, whose fault is at a
token that was handed on. -/
theorem like_fail {e f : ParseError} (h : e.Like L f) :
    Like L R (fail e : Parser α) (fail f) :=
  fun _ _ hs => ⟨.error h, .nil, hs⟩

/-- A fault at the next token is the same fault on both sides, as the next tokens
are alike. At the end these are the end-of-file tokens, which is why streams have
to be alike in them too. -/
theorem like_failHere {f : Token → ParseError} (hf : ParseError.AtNext f) :
    Like L R (failHere f : Parser α) (failHere f) := by
  intro s u hs
  refine ⟨.error ?_, .nil, hs⟩
  have hnext := hs.here
  cases hf with
  | expectedExpression => exact .expectedExpression hnext
  | expectedPunctuator => exact .expectedPunctuator hnext
  | expectedVariableName => exact .expectedVariableName hnext
  | nestingTooDeep => exact .nestingTooDeep hnext

/-- Of the next token only the place is kept. -/
theorem like_here : Like L (fun t u => L.spans t.span u.span) here here :=
  fun _ _ hs => ⟨.ok (L.spans_of_rel hs.here), .nil, hs⟩

/-- What is answered of the next token is the same on both sides, and not only
alike. -/
theorem like_nextIs (m : Punctuator) : Like L Eq (nextIs m) (nextIs m) := by
  intro s u hs
  refine ⟨.ok ?_, .nil, hs⟩
  rw [hs.head_kind]

/-- **One parser after another.** -/
theorem Like.bind {p q : Parser α} {f g : α → Parser β} (hp : Like L R p q)
    (hf : ∀ a b, R a b → Like L Q (f a) (g b)) :
    Like L Q (p >>= f) (q >>= g) := by
  intro s u hs
  have hreply := hp s u hs
  exact hreply.andThen fun a b hab => hf a b hab _ _ hreply.rest

/-- **A choice by the next token.** It is the same choice on both sides, as it is
made by the kind of the token. -/
theorem like_onNext {f g : Token → Option (Parser α)} {p q : Parser α}
    (hf : ∀ t u, L.rel t u → Option.Rel (Like L R) (f t) (g u))
    (ho : Like L R p q) : Like L R (onNext f p) (onNext g q) := by
  intro s u hs
  have htail := hs.tail
  have helse := ho s u hs
  unfold onNext
  obtain ⟨hts, hz⟩ := hs
  cases hts with
  | nil => exact helse
  | @cons t t' ts ts' ht hts =>
    have hchoice := hf t t' ht
    simp only [List.head?_cons, Option.bind_some]
    generalize f t = o, g t' = o' at hchoice
    cases hchoice with
    | none => exact helse
    | some hpq => exact hpq _ _ htail

end Parser

/-! ## Chains

The trees of a chain grow while it is read, and it ends where the next token is
no operator of its table. So the induction is on the tokens, with the operand so
far changing from round to round. -/

/-- The operators of a table are spelled like their punctuators. The relation
between trees has this of every operator, and here is where it comes from. -/
def OperatorTable.Spelled (table : OperatorTable) : Prop :=
  ∀ m op, table.lookup m = some op → op.text = m.text

theorem OperatorTable.spelled_of_mem {table : OperatorTable} (h : table ∈ all) :
    table.Spelled := by
  intro m op hop
  simp only [all, List.mem_cons, List.not_mem_nil, or_false] at h
  rcases h with rfl | rfl | rfl | rfl <;> cases m <;> cases hop <;> rfl

/-- Tokens that are alike stand for the same operator of a table, or for none: a
table is asked by the kind of the token. -/
theorem OperatorTable.like_find? {L : Likeness} {table : OperatorTable}
    (htable : table.Spelled) {t u : Token} (h : L.rel t u) :
    Option.Rel (Located.Like L BinaryOp.text) (table.find? t)
      (table.find? u) := by
  unfold find?
  rw [← L.kind_eq h]
  split
  · rename_i m hm
    cases hop : table.lookup m with
    | none => exact .none
    | some op => exact .some (.mk h hm (htable m op hop))
  · exact .none

namespace Parser

variable {L : Likeness}

/-- **Chains are alike**, by induction on the tokens: what stands behind the
first operand is read alike. The operands that were read so far are carried along,
since the tree grows to the left. -/
theorem like_chainTail {table : OperatorTable} (htable : table.Spelled)
    {p q : Parser Expr} (hp : Like L (Expr.Like L) p q) {l l' : Expr}
    (hl : l.Like L l') {s u : TokenStream} (hs : s.Like L u) :
    (chainTail table p l s).Like L (Expr.Like L) (chainTail table q l' u) := by
  induction hlen : s.tokens.length using Nat.strongRecOn
    generalizing s u l l' with
  | ind n ih =>
    obtain @⟨_, _, z, y, hts, hz⟩ := hs
    cases hts with
    | nil =>
      rw [chainTail_of_none (by simp), chainTail_of_none (by simp)]
      exact ⟨.ok hl, .nil, .nil, hz⟩
    | @cons t t' ts us ht hts =>
      match hop : table.find? t, hoq : table.find? t',
        OperatorTable.like_find? htable ht with
      | none, none, _ =>
        rw [chainTail_of_none (by simpa using hop),
          chainTail_of_none (by simpa using hoq)]
        exact ⟨.ok hl, .nil, .cons ht hts, hz⟩
      | some op, some oq, .some hlike =>
        rw [chainTail_of_some hop, chainTail_of_some hoq]
        have hreply := hp _ _ (.mk hts hz)
        refine hreply.andThen fun r r' hr => ?_
        -- The operator itself makes what is left shorter.
        have hlt : (p.run ⟨ts, z⟩).rest.tokens.length < n := by
          rw [← hlen]
          exact Nat.lt_succ_of_le (p.rest_suffix _).length_le
        exact ih _ hlt (.binary hlike hl hr) hreply.rest rfl

theorem Like.chain {table : OperatorTable} (htable : table.Spelled)
    {p q : Parser Expr} (hp : Like L (Expr.Like L) p q) :
    Like L (Expr.Like L) (p.chain table) (q.chain table) := by
  intro s u hs
  have hreply := hp s u hs
  exact hreply.andThen fun l l' hl => like_chainTail htable hp hl hreply.rest

end Parser

/-! ## Sequences of declarations

Sequences are where faults are recorded and tokens dropped. To follow them, one
declaration is taken as a step that gives statements, faults and a rest
(`Rule.once`), and a sequence as such steps up to a token that stops it. -/

/-- Declarations that are alike, with their faults and what is left. As for
replies, the relation between statements is a parameter. -/
structure Declarations.Like (L : Likeness) (R : Stmt → Stmt → Prop)
    (d e : Declarations) : Prop where
  /-- The declarations. -/
  statements : List.Forall₂ R d.statements e.statements
  /-- The faults of those that were dropped. -/
  recorded : List.Forall₂ (ParseError.Like L) d.recorded e.recorded
  /-- What is left. -/
  rest : d.rest.Like L e.rest

section Sequences

variable {L : Likeness} {R : Stmt → Stmt → Prop}

theorem Declarations.Like.append {d e more more' : Declarations}
    (h : d.Like L R e) (hmore : more.Like L R more') :
    (d.append more).Like L R (e.append more') :=
  ⟨List.rel_append h.statements hmore.statements,
    List.rel_append h.recorded hmore.recorded, hmore.rest⟩

/-- One declaration is read alike, also if it is dropped: then its fault is recorded
on both sides, and reading resumes at tokens that are alike. -/
theorem Rule.like_once {item : Rule Stmt}
    (hitem : Parser.Like L R item.parser item.parser)
    {s u : TokenStream} (hs : s.Like L u) :
    (item.once s).Like L R (item.once u) := by
  have hreply : (item.run s).Like L R (item.run u) := hitem s u hs
  unfold once
  revert hreply
  generalize item.run s = r, item.run u = q
  obtain ⟨o, recorded, rest⟩ := r
  obtain ⟨o', recorded', rest'⟩ := q
  rintro ⟨ho, hrecorded, hrest⟩
  cases ho with
  | ok h => exact ⟨.cons h .nil, hrecorded, hrest⟩
  | error h =>
    exact ⟨.nil, List.rel_append hrecorded (.cons h .nil), like_resync hs hrest⟩

/-- **Sequences of declarations are read alike**, also where some are dropped, by
induction on the tokens. That every declaration gets ahead is what the induction
needs, and `Rule.length_once_lt` says it of dropped ones too. -/
theorem like_declarations {stop : Token → Bool}
    (hstop : ∀ t u, L.rel t u → stop t = stop u) {item : Rule Stmt}
    (hitem : Parser.Like L R item.parser item.parser)
    {s u : TokenStream} (hs : s.Like L u) :
    (declarations stop item s).Like L R (declarations stop item u) := by
  induction hlen : s.tokens.length using Nat.strongRecOn
    generalizing s u with
  | ind n ih =>
    have honce := Rule.like_once hitem hs
    obtain @⟨_, _, z, y, hts, hz⟩ := hs
    cases hts with
    | nil =>
      rw [declarations_nil, declarations_nil]
      exact ⟨.nil, .nil, .nil, hz⟩
    | @cons t t' ts us ht hts =>
      cases hgo : stop t with
      | true =>
        rw [declarations_of_stop hgo,
          declarations_of_stop (hstop t t' ht ▸ hgo)]
        exact ⟨.nil, .nil, .cons ht hts, hz⟩
      | false =>
        rw [declarations_eq_append item hgo,
          declarations_eq_append item (hstop t t' ht ▸ hgo)]
        have hlt := item.length_once_lt (s := ⟨t :: ts, z⟩) (List.cons_ne_nil t ts)
        exact honce.append (ih _ (hlen ▸ hlt) honce.rest rfl)

end Sequences

/-! ## Trees

What is left to see is that the rules build trees that are alike from parts that
are. Most rules apply a constructor. Two do more: a `for` loop is rewritten into
other statements, and an assignment looks at the tree of its left side. -/

section Trees

variable {L : Likeness}

/-- Statements that are alike stand at places that are alike. A `for` loop needs it:
the block around its body has the place of the body. -/
theorem Stmt.Like.spans {s u : Stmt} (h : s.Like L u) :
    L.spans s.span u.span := by
  cases h <;> assumption

/-- The same for expressions, whose place is that of one of their tokens. The
increment of a `for` loop becomes a statement at this place. -/
theorem Expr.Like.spans {e f : Expr} (h : e.Like L f) :
    L.spans e.span f.span := by
  induction h with
  | assign hn | reference hn | literal hn => exact L.spans_of_rel hn
  | truth h => exact h
  | grouping _ ih => exact ih
  | binary hop =>
    obtain ⟨h⟩ := hop
    exact L.spans_of_rel h
  | unary hop =>
    obtain ⟨h⟩ := hop
    exact L.spans_of_rel h

/-- **Loops with clauses that are alike stand for trees that are alike.** Clauses
are missing on both sides or on none. For a missing condition the tree has a
literal `true` that no token was read for. -/
theorem ForClauses.like_loop {c d : ForClauses} {a b : Span}
    (hspan : L.spans a b) (hi : Option.Rel (Stmt.Like L) c.initial d.initial)
    (hc : Option.Rel (Expr.Like L) c.condition d.condition)
    (hu : Option.Rel (Expr.Like L) c.increment d.increment) {s u : Stmt}
    (hs : s.Like L u) : (c.loop a s).Like L (d.loop b u) := by
  have hcondition : (c.condition.getD (.literal ⟨.keyword .trueKw, "true", a⟩)).Like
      L (d.condition.getD (.literal ⟨.keyword .trueKw, "true", b⟩)) := by
    revert hc
    generalize c.condition = o, d.condition = o'
    rintro (hc | -)
    · exact hc
    · exact .truth hspan
  have hround : (s.withIncrement c.increment).Like L
      (u.withIncrement d.increment) := by
    revert hu
    generalize c.increment = o, d.increment = o'
    rintro (hu | -)
    · exact .block hs.spans (.cons hs (.cons (.expression hu.spans hu) .nil))
    · exact hs
  refine .block hspan ?_
  have hloop := List.Forall₂.cons (Stmt.Like.loop hspan hcondition hround) .nil
  revert hi
  generalize c.initial = o, d.initial = o'
  rintro (hi | -)
  · exact .cons hi hloop
  · exact hloop

/-- Targets that are alike are both names, or both cannot be assigned to. In the
second case the fault is at the equal sign, which was taken before the right side
was read and is handed on to here. -/
theorem Levels.like_assignTo {target target' : Expr} (ht : target.Like L target')
    {equals equals' : Token} (he : L.rel equals equals')
    (hk : equals.kind = .punctuator .equal) {v v' : Expr} (hv : v.Like L v') :
    Parser.Like L (Expr.Like L) (assignTo target equals v)
      (assignTo target' equals' v') := by
  cases ht with
  | reference hn hkind => exact Parser.like_pure (.assign hn hkind hv)
  | _ => exact Parser.like_fail (.invalidAssignmentTarget he hk)

end Trees

/-! ## All rules

With the combinators and the trees at hand, the grammar is gone through by the
theorems about congruences. -/

section Rules

variable (L : Likeness)

/-- **Likeness goes through the combinators.** Nothing less is asked behind a
token. -/
def Likeness.congruence : Parser.StmtCongruence L where
  rel := Parser.Like L
  behind := Parser.Like L
  places := L.spans
  places_of_rel := L.spans_of_rel
  weaken h := h
  ret := Parser.like_pure
  bind := Parser.Like.bind
  failHere := Parser.like_failHere
  onNext := Parser.like_onNext
  here := Parser.like_here
  nextIs := Parser.like_nextIs
  behind_bind := Parser.Like.bind
  declarations hstop hitem := by
    intro s u hs
    obtain ⟨hstatements, hrecorded, hrest⟩ := like_declarations hstop hitem hs
    exact ⟨.ok hstatements, hrecorded, hrest⟩

/-- The rules for expressions build trees that are alike. Only behind a target
is there something to see: the equal sign that `accept` has taken is the token
of the fault that `assignTo` may give. -/
theorem Likeness.builds_expressions :
    L.congruence.toExprCongruence.Builds (Expr.Like L) where
  literal := .literal
  reference := .reference
  grouping := .grouping
  unary ht hm htext h := .unary (.mk ht hm htext) h
  chain htable hp := hp.chain (OperatorTable.spelled_of_mem htable)
  behindTarget he htarget := by
    refine (L.congruence.accept .equal).bind fun o o' ho => ?_
    cases ho with
    | none => exact Parser.like_pure htarget
    | some hequals =>
      exact Parser.Like.bind he fun _ _ hv =>
        Levels.like_assignTo htarget hequals.1 hequals.2 hv

/-- **Expressions are read alike**, whatever the budget. Statements are made of
them. -/
theorem Rule.like_expression (b : Nat) :
    Parser.Like L (Expr.Like L) (expression b).parser (expression b).parser :=
  (L.builds_expressions.levels b).1

/-- The rules for statements build trees that are alike, at every budget the
same. -/
theorem Likeness.builds_statements :
    L.congruence.Builds
      fun _ => ⟨Expr.Like L, Stmt.Like L, Stmt.Like L, Stmt.Like L⟩ where
  define := .define
  defineClause := .define
  expressionClause := .expression
  declaration h := h
  expression := .expression
  print := .print
  branch := .branch
  loop := .loop
  forLoop hspan hi hc hu hs := ForClauses.like_loop hspan hi hc hu hs
  block := .block

/-- **Declarations are read alike**, whatever the budget. -/
theorem Rule.like_declaration (b : Nat) :
    Parser.Like L (Stmt.Like L) (declaration (.expression b) (.statement b)).parser
      (declaration (.expression b) (.statement b)).parser :=
  L.builds_statements.declaration_rel (like_expression L) b

end Rules

/-! ## Programs

A program is read from a list of tokens, which is made a stream first. The list
has to have an end-of-file token: without one, the stream gets one at the place
of the last token, and of an empty list there is no last token. -/

section Programs

variable {L : Likeness}

/-- The end of a list is found by the kinds of its tokens. -/
theorem Likeness.isEnd_eq {t u : Token} (h : L.rel t u) : t.isEnd = u.isEnd := by
  unfold Token.isEnd
  rw [L.kind_eq h]

theorem ofTokens_cons_end {z : Token} (h : z.isEnd = true) (ts : List Token) :
    TokenStream.ofTokens (z :: ts) = ⟨[], z⟩ := by
  simp [TokenStream.ofTokens, h]

/-- Token lists that are alike and have an end give streams that are alike. -/
theorem like_ofTokens {ts us : List Token} (h : List.Forall₂ L.rel ts us)
    (hend : ∃ t ∈ ts, t.isEnd = true) :
    (TokenStream.ofTokens ts).Like L (TokenStream.ofTokens us) := by
  induction h with
  | nil => exact absurd hend (by simp)
  | @cons t u ts us ht hts ih =>
    have hu := L.isEnd_eq ht
    cases hz : t.isEnd with
    | true =>
      rw [ofTokens_cons_end hz, ofTokens_cons_end (hu ▸ hz)]
      exact ⟨.nil, ht⟩
    | false =>
      obtain ⟨w, hw, hwend⟩ := hend
      have hw : w ∈ ts := by
        rcases List.mem_cons.1 hw with rfl | hw
        · rw [hz] at hwend
          cases hwend
        · exact hw
      have hts' : us ≠ [] := by
        rintro rfl
        cases hts
        cases hw
      have hsingle : ∀ v ∈ [t], v.isEnd = false := by simpa using hz
      have hsingle' : ∀ v ∈ [u], v.isEnd = false := by simpa [← hu] using hz
      have hfront := ofTokens_append hsingle (List.ne_nil_of_mem hw)
      have hfront' := ofTokens_append hsingle' hts'
      obtain ⟨htokens, hfinish⟩ := ih ⟨w, hw, hwend⟩
      rw [List.singleton_append] at hfront hfront'
      rw [hfront, hfront']
      exact ⟨.cons ht htokens, hfinish⟩

/-- **Programs are read alike**: from tokens that are alike come statements that
are alike and faults that are alike. All that a text says about a program beside
the kinds of its tokens goes through the parser untouched. -/
theorem like_parse {ts us : List Token} (h : List.Forall₂ L.rel ts us)
    (hend : ∃ t ∈ ts, t.isEnd = true) :
    List.Forall₂ (Stmt.Like L) (parse ts).statements (parse us).statements
      ∧ List.Forall₂ (ParseError.Like L) (parse ts).errors (parse us).errors := by
  have hitem := Rule.like_declaration L nestingBudget
  have hprogram : (TokenStream.ofTokens ts).program.Like L (Stmt.Like L)
      (TokenStream.ofTokens us).program :=
    like_declarations (fun _ _ _ => rfl) hitem (like_ofTokens h hend)
  exact ⟨hprogram.statements, hprogram.recorded⟩

end Programs

end TreeScript
