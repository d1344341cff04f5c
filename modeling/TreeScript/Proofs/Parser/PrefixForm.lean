import TreeScript.Proofs.Exec.Layout
import TreeScript.Proofs.Form

/-!
# The prefix form can be read back

The prefix form of a tree has parentheses around each node, so it should say what
the tree is. That it does is shown in two steps.

* The prefix form is the text of a form (`Expr.toList_text`, `Stmt.toList_text`),
  and a form can be read back from its text, if its atoms and heads are proper
  (`Form.Proper.eq_of_chars`).
* The form of a tree says what the tree is, up to places (`Expr.Told.bare_eq`,
  `Stmt.Like.telling`). Nodes with the same head, such as both kinds of minus,
  differ in the number of their parts. An atom says of what kind its token is: a
  string begins with a quote, a number with a digit, and any other atom is a
  word (`Token.Atomic.kind_eq`).

Both steps need that the tokens of the tree come from a text. Also there must be
no quotes inside strings: with quotes, one string could look like two with
something between them.

Trees are compared up to places, because places are not displayed: a tree
without its places is **bare**. What a tree has to satisfy for its form to say
what it is, is stated for expressions by recursion (`Expr.Told`) and for
statements by the relation of trees that are like themselves over the tokens of
a text. That every tree which is read has these properties comes from the
theorems about derivations and likeness.
-/

namespace TreeScript

/-! ## Tokens as atoms

A literal is displayed by its text, and a string in quotes. The text of a token
has to say of what kind it is, as a number, a name and a keyword all look like
words. -/

/-- **The tokens that are atoms of a form**: strings without quotes inside,
numbers, and words. -/
inductive Token.Atomic : Token → Prop
  | string {value : String} {span : Span} (h : '"' ∉ value.toList) :
      Atomic ⟨.string, value, span⟩
  | number {c : Char} {cs : List Char} {span : Span} (hc : c.isDigit = true)
      (hcs : ∀ d ∈ c :: cs, isWordPart d = true ∨ d = '.') :
      Atomic ⟨.number, String.ofList (c :: cs), span⟩
  | word {c : Char} {cs : List Char} {span : Span} (hc : isWordStart c = true)
      (hcs : ∀ d ∈ c :: cs, isWordPart d = true) :
      Atomic ⟨wordKind (c :: cs), String.ofList (c :: cs), span⟩

/-- The kind of the token that an atom stands for. -/
def atomKind (cs : List Char) : TokenKind :=
  if cs.headD ' ' = '"' then .string
  else if (cs.headD ' ').isDigit then .number
  else wordKind cs

/-- A word is never taken for a string. -/
theorem wordKind_ne_string (cs : List Char) : wordKind cs ≠ .string := by
  unfold wordKind
  split <;> exact nofun

/-- Letters, digits, underscores and periods make words. -/
theorem isWord_of_parts {c : Char} {cs : List Char}
    (h : ∀ d ∈ c :: cs, isWordPart d = true ∨ d = '.') : IsWord (c :: cs) := by
  have hnone : [' ', ')', '(', '"'].any (fun d => isWordPart d || d == '.')
      = false := by
    decide
  have hne {d e : Char} (hd : d ∈ c :: cs) (he : e ∈ [' ', ')', '(', '"']) :
      d ≠ e := by
    rintro rfl
    exact List.any_eq_false.1 hnone d he (by simpa using h d hd)
  have hc : c ∈ c :: cs := List.mem_cons_self ..
  exact ⟨fun d hd => ⟨hne hd (by decide), hne hd (by decide)⟩,
    hne hc (by decide), hne hc (by decide)⟩

namespace Expr

theorem toList_literalText_string (value : String) (span : Span) :
    (literalText ⟨.string, value, span⟩).toList
      = '"' :: (value.toList ++ ['"']) := by
  simp [literalText]

theorem literalText_of_ne {t : Token} (h : t.kind ≠ .string) :
    literalText t = t.lexeme := by
  unfold literalText
  split
  · rename_i hkind
    exact absurd hkind h
  · rfl

end Expr

namespace Token.Atomic

variable {t u : Token}

/-- Such a token is displayed as an atom of a form. -/
theorem isAtom (h : t.Atomic) : IsAtom (Expr.literalText t).toList := by
  cases h with
  | string h =>
    rw [Expr.toList_literalText_string]
    exact .quoted h
  | number _ hcs =>
    rw [Expr.literalText_of_ne (t := ⟨.number, _, _⟩) nofun, String.toList_ofList]
    exact .word (isWord_of_parts hcs)
  | word _ hcs =>
    rw [Expr.literalText_of_ne (wordKind_ne_string _), String.toList_ofList]
    exact .word (isWord_of_parts fun d hd => .inl (hcs d hd))

/-- **The first character of an atom tells the kind of its token**, or else the
whole word does. -/
theorem kind_eq (h : t.Atomic) :
    t.kind = atomKind (Expr.literalText t).toList := by
  cases h with
  | string _ =>
    rw [Expr.toList_literalText_string]
    rfl
  | @number c cs _ hc _ =>
    have hquote : c ≠ '"' := by
      rintro rfl
      cases hc
    rw [Expr.literalText_of_ne (t := ⟨.number, _, _⟩) nofun, String.toList_ofList]
    simp [atomKind, hquote, hc]
  | @word c cs _ hc _ =>
    have hquote : c ≠ '"' := by
      rintro rfl
      cases hc
    have hdigit : c.isDigit = false := Bool.eq_false_iff.2 fun hdigit =>
      (isDigit_iff.1 hdigit).not_isLetter (isWordStart_iff.1 hc)
    rw [Expr.literalText_of_ne (wordKind_ne_string _), String.toList_ofList]
    simp [atomKind, hquote, hdigit]

/-- **An atom stands for one token**, up to its place. The kind is told by the
text, and the text of the token is that of the atom, without the quotes. -/
theorem bare_eq (ht : t.Atomic) (hu : u.Atomic)
    (h : Expr.literalText t = Expr.literalText u) : t.bare = u.bare := by
  have hkind : t.kind = u.kind := by rw [ht.kind_eq, hu.kind_eq, h]
  refine Token.bare_eq ⟨hkind, ?_⟩
  by_cases hstring : t.kind = .string
  · unfold Expr.literalText at h
    rw [← hkind, hstring] at h
    exact String.append_right_inj _ |>.1 (String.append_left_inj _ |>.1 h)
  · rwa [Expr.literalText_of_ne hstring, Expr.literalText_of_ne (hkind ▸ hstring)]
      at h

end Token.Atomic

/-- A number of a text is an atom: it consists of digits and at most one period.
-/
theorem Lexeme.atomic_number {ds rest : List Char} (h : Lexeme .number ds rest)
    (span : Span) : Token.Atomic ⟨.number, String.ofList ds, span⟩ := by
  have hpart {d : Char} (hd : IsDigit d) : isWordPart d = true ∨ d = '.' :=
    .inl (isWordPart_iff.2 (.inr hd))
  cases h with
  | integer hne hds =>
    obtain ⟨c, cs, rfl⟩ := List.exists_cons_of_ne_nil hne
    exact .number (isDigit_iff.2 (hds c (List.mem_cons_self ..)))
      fun d hd => hpart (hds d hd)
  | @decimal ds es _ hne _ hds hes =>
    obtain ⟨c, cs, rfl⟩ := List.exists_cons_of_ne_nil hne
    refine .number (isDigit_iff.2 (hds c (List.mem_cons_self ..))) fun d hd => ?_
    have hd : d ∈ (c :: cs) ++ '.' :: es := hd
    rcases List.mem_append.1 hd with hd | hd
    · exact hpart (hds d hd)
    rcases List.mem_cons.1 hd with rfl | hd
    · exact .inr rfl
    · exact hpart (hes d hd)

/-- A word of a text is an atom, be it a name or a keyword. -/
theorem Lexeme.atomic_word {cs rest : List Char} (h : Lexeme .word cs rest)
    (span : Span) : Token.Atomic ⟨wordKind cs, String.ofList cs, span⟩ := by
  cases h with
  | word hc hcs =>
    exact .word (isWordStart_iff.2 hc) (List.forall_mem_cons.2
      ⟨isWordPart_iff.2 (.inl hc), fun d hd => isWordPart_iff.2 (hcs d hd)⟩)

/-- **Literals and names of a text are atoms**, if there are no quotes in its
strings. -/
theorem atomic_scan {source : SourceText}
    (hquotes : ∀ t ∈ source.scan.tokens, t.kind = .string →
      '"' ∉ t.lexeme.toList)
    {t : Token} (ht : t ∈ source.scan.tokens)
    (hkind : t.kind.isLiteral = true ∨ t.kind = .identifier) : t.Atomic := by
  have hquote := hquotes t ht
  rcases mem_scan_tokens ht with ⟨p, g, hg, htoken⟩ | rfl
  · have hlexeme := lexeme_of_mem_segments (mem_of_mem_locate hg)
    cases g with
    | string us =>
      obtain rfl := Option.some.inj htoken
      exact .string (hquote rfl)
    | number ds =>
      obtain rfl := Option.some.inj htoken
      obtain ⟨rest, hlexeme⟩ := hlexeme nofun
      exact hlexeme.atomic_number _
    | word cs =>
      obtain rfl := Option.some.inj htoken
      obtain ⟨rest, hlexeme⟩ := hlexeme nofun
      exact hlexeme.atomic_word _
    | punctuator m =>
      obtain rfl := Option.some.inj htoken
      rcases hkind with hkind | hkind <;> cases hkind
    | blank | comment | unclosed | stray => cases htoken
  · rcases hkind with hkind | hkind <;> cases hkind

/-! ## The form of an expression

A node has the text of its operator for a head, or a word that no operator is
spelled like. Nodes of two kinds may still have the same head: a minus has one
part or two. -/

/-- Every binary operator. -/
def BinaryOp.all : List BinaryOp :=
  [.add, .subtract, .multiply, .divide] ++ Comparison.all.map .comparison

/-- Operators are words of a form, so they may be heads. -/
theorem UnaryOp.isWord_text (op : UnaryOp) : IsWord op.text.toList := by
  cases op <;> simp [IsWord, text]

theorem BinaryOp.isWord_text (op : BinaryOp) : IsWord op.text.toList := by
  cases op with
  | comparison c => cases c <;> simp [IsWord, text, Comparison.text]
  | _ => simp [IsWord, text]

theorem UnaryOp.text_inj {op oq : UnaryOp} (h : op.text = oq.text) :
    op = oq := by
  cases op <;> cases oq <;> simp [text] at h ⊢

/-- The text of a binary operator says which one it is. -/
theorem BinaryOp.find?_text (op : BinaryOp) :
    all.find? (fun oq => oq.text = op.text) = some op := by
  cases op with
  | comparison c => cases c <;> rfl
  | _ => rfl

theorem BinaryOp.text_inj {op oq : BinaryOp} (h : op.text = oq.text) :
    op = oq := by
  have hfind := op.find?_text
  rw [h, oq.find?_text] at hfind
  exact (Option.some.inj hfind).symm

theorem BinaryOp.text_ne (op : BinaryOp) : op.text ≠ "=" := by
  cases op with
  | comparison c => cases c <;> simp [text, Comparison.text]
  | _ => simp [text]

theorem UnaryOp.text_ne (op : UnaryOp) : op.text ≠ "group" := by
  cases op <;> simp [text]

namespace Expr

/-- **The form of an expression.** -/
def form : Expr → Form
  | assign name value => .node "=" [.atom name.lexeme, value.form]
  | binary op lhs rhs => .node op.value.text [lhs.form, rhs.form]
  | grouping inner => .node "group" [inner.form]
  | literal token => .atom (literalText token)
  | unary op operand => .node op.value.text [operand.form]
  | reference name => .atom name.lexeme

/-- The prefix form is how the form is written, by induction on the expression.
-/
theorem toList_text (e : Expr) : e.text.toList = e.form.chars := by
  induction e with
  | literal | reference => rfl
  | assign _ _ ih | grouping _ ih | unary _ _ ih =>
    simp [text, form, Form.chars, Form.charsAll, ih]
  | binary _ _ _ ihl ihr =>
    simp [text, form, Form.chars, Form.charsAll, ihl, ihr]

/-- **Literals and names of the expression are atoms** and have their kinds. -/
def Told : Expr → Prop
  | assign name value => name.kind = .identifier ∧ name.Atomic ∧ value.Told
  | binary _ lhs rhs => lhs.Told ∧ rhs.Told
  | grouping inner => inner.Told
  | literal token => token.kind.isLiteral = true ∧ token.Atomic
  | unary _ operand => operand.Told
  | reference name => name.kind = .identifier ∧ name.Atomic

theorem literalText_of_identifier {n : Token} (h : n.kind = .identifier) :
    literalText n = n.lexeme :=
  literalText_of_ne (h ▸ nofun)

theorem isAtom_name {n : Token} (hkind : n.kind = .identifier)
    (h : n.Atomic) : IsAtom n.lexeme.toList :=
  literalText_of_identifier hkind ▸ h.isAtom

/-- The form of such an expression is proper, so it can be read back. -/
theorem Told.proper {e : Expr} (h : e.Told) : e.form.Proper := by
  induction e with
  | assign name value ih =>
    obtain ⟨hkind, hname, hvalue⟩ := h
    exact .node (by simp [IsWord]) (List.forall_mem_cons.2
      ⟨.atom (isAtom_name hkind hname), List.forall_mem_singleton.2 (ih hvalue)⟩)
  | binary op lhs rhs ihl ihr =>
    exact .node op.value.isWord_text (List.forall_mem_cons.2
      ⟨ihl h.1, List.forall_mem_singleton.2 (ihr h.2)⟩)
  | grouping inner ih =>
    exact .node (by simp [IsWord]) (List.forall_mem_singleton.2 (ih h))
  | literal token => exact .atom h.2.isAtom
  | unary op operand ih =>
    exact .node op.value.isWord_text (List.forall_mem_singleton.2 (ih h))
  | reference name => exact .atom (isAtom_name h.1 h.2)

/-- A literal is no name: the kind of a token is told by its atom. -/
theorem form_literal_ne_reference {t n : Token} (ht : (literal t).Told)
    (hn : (reference n).Told) : (literal t).form ≠ (reference n).form := by
  intro h
  have htext : literalText t = literalText n :=
    (Form.atom.inj h).trans (literalText_of_identifier hn.1).symm
  have hkind : t.kind = n.kind := by rw [ht.2.kind_eq, hn.2.kind_eq, htext]
  have hliteral := ht.1
  rw [hkind, hn.1] at hliteral
  cases hliteral

/-- **The form of an expression says what it is**, up to places, by induction on
the expression. Heads and numbers of parts tell the nodes apart, and atoms the
tokens. -/
theorem Told.bare_eq {e f : Expr} (he : e.Told) (hf : f.Told)
    (h : e.form = f.form) : e.bare = f.bare := by
  induction e generalizing f with
  | assign name value ih =>
    cases f with
    | assign name' value' =>
      obtain ⟨hname, hvalue⟩ :
          name.lexeme = name'.lexeme ∧ value.form = value'.form := by
        simpa [form] using h
      rw [bare, bare, ih he.2.2 hf.2.2 hvalue,
        Token.bare_eq ⟨he.1.trans hf.1.symm, hname⟩]
    | binary op => exact absurd (Form.node.inj h).1.symm op.value.text_ne
    | _ => simp [form] at h
  | binary op lhs rhs ihl ihr =>
    cases f with
    | binary op' lhs' rhs' =>
      obtain ⟨htext, hlhs, hrhs⟩ : op.value.text = op'.value.text
          ∧ lhs.form = lhs'.form ∧ rhs.form = rhs'.form := by
        simpa [form] using h
      rw [bare, bare, ihl he.1 hf.1 hlhs, ihr he.2 hf.2 hrhs, Located.bare,
        BinaryOp.text_inj htext]
      rfl
    | assign => exact absurd (Form.node.inj h).1 op.value.text_ne
    | _ => simp [form] at h
  | grouping inner ih =>
    cases f with
    | grouping inner' =>
      have hinner : inner.form = inner'.form := by simpa [form] using h
      rw [bare, bare, ih (f := inner') he hf hinner]
    | unary op => exact absurd (Form.node.inj h).1.symm op.value.text_ne
    | _ => simp [form] at h
  | literal token =>
    cases f with
    | literal token' =>
      rw [bare, bare, he.2.bare_eq hf.2 (Form.atom.inj h)]
    | reference => exact absurd h (form_literal_ne_reference he hf)
    | _ => simp [form] at h
  | unary op operand ih =>
    cases f with
    | unary op' operand' =>
      obtain ⟨htext, hoperand⟩ : op.value.text = op'.value.text
          ∧ operand.form = operand'.form := by
        simpa [form] using h
      rw [bare, bare, ih (f := operand') he hf hoperand, Located.bare,
        UnaryOp.text_inj htext]
      rfl
    | grouping => exact absurd (Form.node.inj h).1 op.value.text_ne
    | _ => simp [form] at h
  | reference name =>
    cases f with
    | reference name' =>
      rw [bare, bare,
        Token.bare_eq ⟨he.1.trans hf.1.symm, Form.atom.inj h⟩]
    | literal => exact absurd h.symm (form_literal_ne_reference hf he)
    | _ => simp [form] at h

end Expr

/-! ## Expressions that are read

Expressions of statements are known as trees that are like themselves, and
expressions that are read on their own as derivations. Both have only tokens of
the text. -/

/-- The tokens from which trees with atoms are read. -/
abbrev AtomicIfShown (t : Token) : Prop :=
  t.kind.isLiteral = true ∨ t.kind = .identifier → t.Atomic

/-- A derivation is told by its form if its tokens are. -/
theorem Grammar.Derives.told {c : Category} {ts : List Token} {e : Expr} {n : Nat}
    (h : Derives c ts e n) (hT : ∀ t ∈ ts, AtomicIfShown t) : e.Told := by
  induction h with
  | expression _ ih | equality _ ih | operand _ ih | primary _ ih => exact ih hT
  | assign hkind _ _ ih =>
    obtain ⟨hname, hT⟩ := List.forall_mem_cons.1 hT
    exact ⟨hkind, hname (.inr hkind), ih (List.forall_mem_cons.1 hT).2⟩
  | link _ _ _ _ ihl ihr =>
    exact ⟨ihl fun t ht => hT t (List.mem_append_left _ ht),
      ihr fun t ht =>
        hT t (List.mem_append_right _ (List.mem_cons_of_mem _ ht))⟩
  | unary _ _ _ ih => exact ih fun t ht => hT t (List.mem_cons_of_mem _ ht)
  | literal hl =>
    have hliteral := isLiteral_iff.2 hl
    exact ⟨hliteral, hT _ (List.mem_singleton_self _) (.inl hliteral)⟩
  | name hkind => exact ⟨hkind, hT _ (List.mem_singleton_self _) (.inr hkind)⟩
  | grouping _ _ _ ih =>
    exact ih fun t ht =>
      hT t (List.mem_cons_of_mem _ (List.mem_append_left _ ht))

/-- The literal that stands for a missing condition is an atom, although no
token of the text stands for it. -/
theorem atomic_true (span : Span) :
    Token.Atomic ⟨.keyword .trueKw, "true", span⟩ := by
  show Token.Atomic ⟨wordKind "true".toList, String.ofList "true".toList, span⟩
  exact .word rfl (List.all_eq_true.1 rfl)

/-- What is like itself over the tokens of a text is told by its form. -/
theorem Expr.Like.told {e f : Expr} (h : e.Like (.within AtomicIfShown) f) :
    e.Told := by
  induction h with
  | assign hn hkind _ ih => exact ⟨hkind, hn.2 (.inr hkind), ih⟩
  | binary _ _ _ ihl ihr => exact ⟨ihl, ihr⟩
  | grouping _ ih => exact ih
  | literal h hkind => exact ⟨hkind, h.2 (.inl hkind)⟩
  | truth => exact ⟨rfl, atomic_true _⟩
  | unary _ _ ih => exact ih
  | reference hn hkind => exact ⟨hkind, hn.2 (.inr hkind)⟩

/-! ## Statements

Each kind of statement has a head of its own, which no operator is spelled like.
So the head says of what kind a statement is, and the number of its parts which
of them are missing. -/

namespace Stmt

mutual

/-- **The form of a statement.** -/
def form : Stmt → Form
  | block _ body => .node "block" (formAll body)
  | expression _ e => .node "expr" [e.form]
  | branch _ c t none => .node "if" [c.form, t.form]
  | branch _ c t (some e) => .node "if" [c.form, t.form, e.form]
  | print _ e => .node "print" [e.form]
  | define _ n none => .node "let" [.atom n.lexeme]
  | define _ n (some e) => .node "let" [.atom n.lexeme, e.form]
  | loop _ c b => .node "while" [c.form, b.form]

/-- The forms of several statements. -/
def formAll : List Stmt → List Form
  | [] => []
  | s :: ss => s.form :: formAll ss

end

/-- The forms of several statements are those of each of them. The function is
written by recursion with the one for statements. -/
theorem formAll_eq_map (ss : List Stmt) : formAll ss = ss.map form := by
  induction ss with
  | nil => rfl
  | cons s ss ih =>
    rw [formAll, ih]
    rfl

/-- The statements of a block are displayed one behind the other, each behind a
blank. -/
theorem toList_textAll {ss : List Stmt}
    (h : ∀ s ∈ ss, s.text.toList = s.form.chars) :
    (textAll ss).toList = Form.charsAll (formAll ss) := by
  induction ss with
  | nil => rfl
  | cons s ss ih =>
    obtain ⟨hs, hss⟩ := List.forall_mem_cons.1 h
    simp [textAll, formAll, Form.charsAll, hs, ih hss]

/-- The prefix form is how the form is written. -/
theorem toList_text (s : Stmt) : s.text.toList = s.form.chars := by
  induction s with
  | block _ body ih =>
    simp [text, form, Form.chars, toList_textAll ih]
  | expression _ e | print _ e =>
    simp [text, form, Form.chars, Form.charsAll, Expr.toList_text]
  | branch _ c t e iht ihe =>
    cases e with
    | none => simp [text, form, Form.chars, Form.charsAll, Expr.toList_text, iht]
    | some e =>
      simp [text, form, Form.chars, Form.charsAll, Expr.toList_text, iht, ihe e rfl]
  | define _ n e =>
    cases e with
    | none => simp [text, form, Form.chars, Form.charsAll]
    | some e => simp [text, form, Form.chars, Form.charsAll, Expr.toList_text]
  | loop _ c b ih =>
    simp [text, form, Form.chars, Form.charsAll, Expr.toList_text, ih]

/-- The head of the form of a statement. -/
def head : Stmt → String
  | block .. => "block"
  | expression .. => "expr"
  | branch .. => "if"
  | print .. => "print"
  | define .. => "let"
  | loop .. => "while"

theorem exists_form_eq (s : Stmt) : ∃ parts, s.form = .node s.head parts := by
  cases s with
  | branch _ _ _ e => cases e <;> exact ⟨_, rfl⟩
  | define _ _ e => cases e <;> exact ⟨_, rfl⟩
  | _ => exact ⟨_, rfl⟩

theorem head_eq_of_form {s u : Stmt} (h : s.form = u.form) : s.head = u.head := by
  obtain ⟨parts, hs⟩ := s.exists_form_eq
  obtain ⟨parts', hu⟩ := u.exists_form_eq
  rw [hs, hu] at h
  exact (Form.node.inj h).1

end Stmt

namespace Stmt.Like

variable {s u : Stmt}

/-- What is read has a form that can be read back. -/
theorem proper (h : s.Like (.within AtomicIfShown) u) : s.form.Proper := by
  refine h.induction (P := fun s _ => s.form.Proper) ?block ?expression ?branch
    ?print ?define ?loop
  case block =>
    intro a b ss us h
    have hparts : ∀ s ∈ ss, s.form.Proper := ((List.forall₂_and_left ss us).1
      (h.imp fun _ _ hs => ⟨hs, trivial⟩)).1
    rw [form, formAll_eq_map]
    exact .node (by simp [IsWord]) (List.forall_mem_map.2 hparts)
  case expression =>
    intro a b e f h
    exact .node (by simp [IsWord]) (List.forall_mem_singleton.2 h.told.proper)
  case branch =>
    intro a b c d s u e f hc hs he
    cases he with
    | none =>
      exact .node (by simp [IsWord]) (List.forall_mem_cons.2
        ⟨hc.told.proper, List.forall_mem_singleton.2 hs⟩)
    | some he =>
      exact .node (by simp [IsWord]) (List.forall_mem_cons.2
        ⟨hc.told.proper, List.forall_mem_cons.2
          ⟨hs, List.forall_mem_singleton.2 he⟩⟩)
  case print =>
    intro a b e f h
    exact .node (by simp [IsWord]) (List.forall_mem_singleton.2 h.told.proper)
  case define =>
    intro a b n k e f hn hkind he
    have hname : (Form.atom n.lexeme).Proper :=
      .atom (Expr.isAtom_name hkind (hn.2 (.inr hkind)))
    cases he with
    | none =>
      exact .node (by simp [IsWord]) (List.forall_mem_singleton.2 hname)
    | some he =>
      exact .node (by simp [IsWord]) (List.forall_mem_cons.2
        ⟨hname, List.forall_mem_singleton.2 he.told.proper⟩)
  case loop =>
    intro a b c d s u hc hs
    exact .node (by simp [IsWord]) (List.forall_mem_cons.2
      ⟨hc.told.proper, List.forall_mem_singleton.2 hs⟩)

/-- The form of the statement says what it is, up to places. -/
def Telling (s : Stmt) : Prop :=
  ∀ {v w : Stmt}, v.Like (.within AtomicIfShown) w → s.form = v.form →
    s.bare = v.bare

/-- Lists of statements with the same forms are the same up to places, if this
holds of each statement of one of them. The bodies of blocks are compared in
this way. -/
theorem map_bare_eq_of_forms {ss us vs ws : List Stmt}
    (h : List.Forall₂ (fun s _ => Telling s) ss us)
    (hv : List.Forall₂ (Stmt.Like (.within AtomicIfShown)) vs ws)
    (hforms : ss.map form = vs.map form) : ss.map bare = vs.map bare := by
  induction h generalizing vs ws with
  | nil => rw [List.map_eq_nil_iff.1 hforms.symm]
  | cons hs _ ih =>
    cases hv with
    | nil => cases hforms
    | cons hv hvs =>
      obtain ⟨hform, hforms⟩ := List.cons.inj hforms
      rw [List.map_cons, List.map_cons, hs hv hform, ih hvs hforms]

/-- **The form of a statement says what it is**, by induction on what is read: the
head tells the kind of the statement, and the number of parts whether one is
missing. -/
theorem telling (h : s.Like (.within AtomicIfShown) u) : Telling s := by
  refine h.induction (P := fun s _ => Telling s)
    ?block ?expression ?branch ?print ?define ?loop
  case block =>
    intro a b ss us h v w hv hform
    have hhead := head_eq_of_form hform
    cases hv with
    | @block _ _ vs ws _ h' =>
      have hforms : ss.map form = vs.map form := by
        simpa [form, formAll_eq_map] using hform
      rw [bare, bare, bareAll_eq_map, bareAll_eq_map,
        map_bare_eq_of_forms h h' hforms]
    | _ => simp [head] at hhead
  case expression =>
    intro a b e f h v w hv hform
    have hhead := head_eq_of_form hform
    cases hv with
    | @expression _ _ e' _ _ h' =>
      have hvalue : e.form = e'.form := by simpa [form] using hform
      rw [bare, bare, h.told.bare_eq h'.told hvalue]
    | _ => simp [head] at hhead
  case branch =>
    intro a b c d s u e f hc hs he v w hv hform
    have hhead := head_eq_of_form hform
    cases hv with
    | @branch _ _ c' _ s' _ e' _ _ hc' hs' he' =>
      cases he with
      | none =>
        cases he' with
        | none =>
          obtain ⟨hcond, hthen⟩ : c.form = c'.form ∧ s.form = s'.form := by
            simpa [form] using hform
          rw [bare, bare, hc.told.bare_eq hc'.told hcond, hs hs' hthen]
        | some _ => simp [form] at hform
      | @some e f he =>
        cases he' with
        | none => simp [form] at hform
        | @some e' f' he' =>
          obtain ⟨hcond, hthen, helse⟩ : c.form = c'.form ∧ s.form = s'.form
              ∧ e.form = e'.form := by
            simpa [form] using hform
          rw [bare, bare, hc.told.bare_eq hc'.told hcond, hs hs' hthen,
            he he' helse]
    | _ => simp [head] at hhead
  case print =>
    intro a b e f h v w hv hform
    have hhead := head_eq_of_form hform
    cases hv with
    | @print _ _ e' _ _ h' =>
      have hvalue : e.form = e'.form := by simpa [form] using hform
      rw [bare, bare, h.told.bare_eq h'.told hvalue]
    | _ => simp [head] at hhead
  case define =>
    intro a b n k e f hn hkind he v w hv hform
    have hhead := head_eq_of_form hform
    cases hv with
    | @define _ _ n' k' e' f' _ hn' hkind' he' =>
      have hkinds : n.kind = n'.kind := hkind.trans hkind'.symm
      cases he with
      | none =>
        cases he' with
        | none =>
          have hname : n.lexeme = n'.lexeme := by simpa [form] using hform
          rw [bare, bare, Token.bare_eq ⟨hkinds, hname⟩]
        | some _ => simp [form] at hform
      | @some e f he =>
        cases he' with
        | none => simp [form] at hform
        | @some e' f' he' =>
          obtain ⟨hname, hvalue⟩ : n.lexeme = n'.lexeme ∧ e.form = e'.form := by
            simpa [form] using hform
          rw [bare, bare, Token.bare_eq ⟨hkinds, hname⟩, Option.map_some,
            he.told.bare_eq he'.told hvalue]
          rfl
    | _ => simp [head] at hhead
  case loop =>
    intro a b c d s u hc hs v w hv hform
    have hhead := head_eq_of_form hform
    cases hv with
    | @loop _ _ c' _ s' _ _ hc' hs' =>
      obtain ⟨hcond, hbody⟩ : c.form = c'.form ∧ s.form = s'.form := by
        simpa [form] using hform
      rw [bare, bare, hc.told.bare_eq hc'.told hcond, hs hs' hbody]
    | _ => simp [head] at hhead

end Stmt.Like

/-- Statements with the same prefix forms have the same forms. -/
theorem Stmt.forms_eq_of_texts {ss vs : List Stmt}
    (hss : ∀ s ∈ ss, s.form.Proper) (hvs : ∀ v ∈ vs, v.form.Proper)
    (h : ss.map text = vs.map text) : ss.map form = vs.map form := by
  induction ss generalizing vs with
  | nil => rw [List.map_eq_nil_iff.1 h.symm]
  | cons s ss ih =>
    cases vs with
    | nil => cases h
    | cons v vs =>
      obtain ⟨htext, htexts⟩ := List.cons.inj h
      obtain ⟨hs, hss'⟩ := List.forall_mem_cons.1 hss
      obtain ⟨hv, hvs'⟩ := List.forall_mem_cons.1 hvs
      have hchars : s.form.chars = v.form.chars := by
        rw [← toList_text, ← toList_text, htext]
      rw [List.map_cons, List.map_cons, hs.eq_of_chars hv hchars,
        ih hss' hvs' htexts]

/-! ## Reading the prefix form back

What is left is to see that the trees of a text satisfy the conditions. -/

section Sources

variable {a : SourceText}

/-- The statements of a text are like themselves over tokens that are atoms. -/
theorem like_parse_atomic
    (ha : ∀ t ∈ a.scan.tokens, t.kind = .string → '"' ∉ t.lexeme.toList) :
    List.Forall₂ (Stmt.Like (.within AtomicIfShown))
      (parse a.scan.tokens).statements (parse a.scan.tokens).statements :=
  have hself : List.Forall₂ (Likeness.within AtomicIfShown).rel a.scan.tokens
      a.scan.tokens :=
    List.forall₂_same.2 fun _ ht => ⟨rfl, atomic_scan ha ht⟩
  (like_parse hself (exists_isEnd_scan a)).1

/-- An expression that is read from tokens of a text, from wherever in it, is
told by its form. -/
theorem told_expression
    (ha : ∀ t ∈ a.scan.tokens, t.kind = .string → '"' ∉ t.lexeme.toList)
    {s : TokenStream} {e : Expr} (hs : ∀ t ∈ s.tokens, t ∈ a.scan.tokens)
    (he : s.expression.outcome = .ok e) : e.Told := by
  have hT : ∀ t ∈ s.tokens, AtomicIfShown t :=
    fun t ht => atomic_scan ha (hs t ht)
  obtain ⟨ts, n, hderives, -, hts⟩ :=
    Rule.derived_expression AtomicIfShown nestingBudget s hT e he
  exact hderives.told hts

end Sources

/-- **The prefix form can be read back.** Take two texts without quotes inside
their strings. If the statements that are read from them have the same prefix
forms, one by one, they are the same up to places, and so are expressions with the
same prefix form that are read from tokens of the texts, from wherever in them. -/
theorem prefixForm_readable (a b : SourceText)
    (ha : ∀ t ∈ a.scan.tokens, t.kind = .string → '"' ∉ t.lexeme.toList)
    (hb : ∀ t ∈ b.scan.tokens, t.kind = .string → '"' ∉ t.lexeme.toList) :
    ((parse a.scan.tokens).statements.map Stmt.text
        = (parse b.scan.tokens).statements.map Stmt.text →
      (parse a.scan.tokens).statements.map Stmt.bare
        = (parse b.scan.tokens).statements.map Stmt.bare)
    ∧ ∀ (s u : TokenStream) (e f : Expr),
      (∀ t ∈ s.tokens, t ∈ a.scan.tokens) →
      (∀ t ∈ u.tokens, t ∈ b.scan.tokens) →
      s.expression.outcome = .ok e → u.expression.outcome = .ok f →
      e.text = f.text → e.bare = f.bare := by
  constructor
  · intro htexts
    have hlike := like_parse_atomic ha
    have hlike' := like_parse_atomic hb
    have hforms := Stmt.forms_eq_of_texts
      (fun s hs => (List.forall₂_same.1 hlike s hs).proper)
      (fun s hs => (List.forall₂_same.1 hlike' s hs).proper) htexts
    exact Stmt.Like.map_bare_eq_of_forms (hlike.imp fun _ _ h => h.telling) hlike'
      hforms
  · intro s u e f hs hu he hf htext
    have hchars : e.form.chars = f.form.chars := by
      rw [← Expr.toList_text, ← Expr.toList_text, htext]
    have htold := told_expression ha hs he
    have htold' := told_expression hb hu hf
    exact htold.bare_eq htold' (htold.proper.eq_of_chars htold'.proper hchars)

/-- Both kinds of minus, and a string that looks like a node. -/
def twoMinuses : SourceText := ⟨"", "-a - \"(b)\";"⟩

/-- The same with other blanks. -/
def spacedMinuses : SourceText := ⟨"spaced", " -a-\n \"(b)\";"⟩

/-- It is read as a difference with a negation on its left. -/
theorem statements_twoMinuses : (parse twoMinuses.scan.tokens).statements
    = [.expression ⟨"", 1, 1⟩ (.binary ⟨⟨"", 1, 4⟩, .subtract⟩
        (.unary ⟨⟨"", 1, 1⟩, .negate⟩
          (.reference ⟨.identifier, "a", ⟨"", 1, 2⟩⟩))
        (.literal ⟨.string, "(b)", ⟨"", 1, 6⟩⟩))] := by
  cbv

/-- So is this one, at other places. -/
theorem statements_spacedMinuses : (parse spacedMinuses.scan.tokens).statements
    = [.expression ⟨"spaced", 1, 2⟩ (.binary ⟨⟨"spaced", 1, 4⟩, .subtract⟩
        (.unary ⟨⟨"spaced", 1, 2⟩, .negate⟩
          (.reference ⟨.identifier, "a", ⟨"spaced", 1, 3⟩⟩))
        (.literal ⟨.string, "(b)", ⟨"spaced", 2, 2⟩⟩))] := by
  cbv

/-- No string of it has a quote inside, and the same holds of the other text. -/
theorem quotes_twoMinuses : twoMinuses.scan.tokens.all (fun t =>
    t.kind != .string || !t.lexeme.toList.contains '"') = true := by
  cbv

theorem quotes_spacedMinuses : spacedMinuses.scan.tokens.all (fun t =>
    t.kind != .string || !t.lexeme.toList.contains '"') = true := by
  cbv

/-- Both texts are displayed in the same way, so they are the same program up to
places. -/
theorem prefixForm_readable_twoMinuses :
    (parse twoMinuses.scan.tokens).statements.map Stmt.text
        = ["(expr (- (- a) \"(b)\"))"]
      ∧ (parse twoMinuses.scan.tokens).statements.map Stmt.bare
        = (parse spacedMinuses.scan.tokens).statements.map Stmt.bare := by
  have htexts : (parse twoMinuses.scan.tokens).statements.map Stmt.text
      = ["(expr (- (- a) \"(b)\"))"] := by
    rw [statements_twoMinuses]
    rfl
  have htexts' : (parse spacedMinuses.scan.tokens).statements.map Stmt.text
      = ["(expr (- (- a) \"(b)\"))"] := by
    rw [statements_spacedMinuses]
    rfl
  refine ⟨htexts, (prefixForm_readable _ _ ?_ ?_).1 (htexts.trans htexts'.symm)⟩
  · intro t ht
    simpa [imp_iff_not_or] using List.all_eq_true.1 quotes_twoMinuses t ht
  · intro t ht
    simpa [imp_iff_not_or] using List.all_eq_true.1 quotes_spacedMinuses t ht

end TreeScript
