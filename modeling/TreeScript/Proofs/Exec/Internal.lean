import TreeScript.Proofs.Exec.Diagnostics
import TreeScript.Proofs.Parser.Derived
import TreeScript.Proofs.Token.Munch

/-!
# Internal errors are out of reach

An internal error is raised at a literal that stands for no value, and nowhere
else. No source text leads to one, for three reasons.

* A number in a text is digits, or digits on both sides of a period, and such a
  text is read as a number (`exists_readFloat`). So every literal among the
  tokens of a text has a value (`denotes_scan`).
* The literals of a tree that was read are literals among the tokens, or the
  `true` that stands for a missing condition (`Stmt.Derived.denotes`). This also
  holds of a program some of whose declarations were dropped.
* Evaluating a literal that has a value raises no error, and no other step
  raises an internal one (`Stmt.exec_not_internal`).

The first point is about the scanner and the reader of decimals together, and
the only place where these two meet: the scanner promises the form of a lexeme,
the reader needs no more than this form. The second is the parser's; it makes up
one literal, and no other. The third is an argument about errors along the steps
of execution, and is stated for any property of errors (`Stmt.exec_error`), as
other modules ask for other properties.
-/

namespace TreeScript

open Grammar

/-! ## Numbers in a text

The reader of decimals splits a text at its sign, its period and its exponent. A
lexeme of a number has digits in front, so there is no sign, and digits or the
one period between digits, so there is no exponent. -/

namespace Decimal

/-- A text that begins with a digit has no sign. -/
theorem splitSign_of_digit {c : Char} (h : c.isDigit = true) (cs : List Char) :
    splitSign (c :: cs) = (false, c :: cs) := by
  unfold splitSign
  split
  · rename_i heq
    obtain ⟨rfl, -⟩ := List.cons.inj heq
    cases h
  · rename_i heq
    obtain ⟨rfl, -⟩ := List.cons.inj heq
    cases h
  · rfl

/-- **A lexeme of a number writes a decimal.** Behind its digits, or behind its
period and digits, stands nothing. The reader splits at the first character that
is no digit, so it finds the same digits as the scanner has, in front of the
period and behind it. -/
theorem exists_ofText? {cs rest : List Char} (h : Lexeme .number cs rest) :
    ∃ d, ofText? cs = some d := by
  have hall {ds : List Char} (h : ∀ d ∈ ds, IsDigit d) :
      ∀ d ∈ ds, d.isDigit = true := fun d hd => isDigit_iff.2 (h d hd)
  have hdrop {ds : List Char} (h : ∀ d ∈ ds, IsDigit d) :
      ds.dropWhile Char.isDigit = [] := by
    simpa using @List.dropWhile_append_of_pos _ _ ds [] (hall h)
  unfold ofText?
  cases h with
  | integer hne h =>
    have hwhole : cs.takeWhile Char.isDigit = cs := by
      simpa using @List.takeWhile_append_of_pos _ _ cs [] (hall h)
    rw [hwhole, hdrop h]
    simp [splitFraction, exponent?, hne]
  | @decimal ds es _ hds hes hd he =>
    rw [List.takeWhile_append_of_pos (hall hd),
      List.dropWhile_append_of_pos (hall hd)]
    simp [splitFraction, exponent?, hds, hdrop he]

/-- **A number in a text is read**: its decimal is rounded to a value, and
rounding never fails. -/
theorem exists_readFloat {cs rest : List Char} (h : Lexeme .number cs rest) :
    ∃ x, readFloat (String.ofList cs) = .ok x := by
  obtain ⟨d, hd⟩ := exists_ofText? h
  have hsign : splitSign cs = (false, cs) := by
    cases h with
    | integer hne h =>
      obtain ⟨c, cs, rfl⟩ := List.exists_cons_of_ne_nil hne
      exact splitSign_of_digit (isDigit_iff.2 (h c (List.mem_cons_self ..))) cs
    | decimal hne _ h _ =>
      obtain ⟨c, cs, rfl⟩ := List.exists_cons_of_ne_nil hne
      exact splitSign_of_digit (isDigit_iff.2 (h c (List.mem_cons_self ..))) _
  refine ⟨d.toFloat, ?_⟩
  unfold readFloat
  simp only [String.toList_ofList, hsign, hd]
  simp [h.ne_nil]

end Decimal

/-! ## Literals that have a value

A token denotes a value or it does not; for the tokens of a text the only doubt
is about numbers. -/

/-- **The token stands for a value**, as a literal does. -/
def Token.Denotes (t : Token) : Prop := ∃ v, literalValue t = .ok v

/-- Literals other than numbers stand for a value whatever their text is. -/
theorem Token.denotes_of_ne_number {t : Token} (hl : IsLiteral t.kind)
    (hn : t.kind ≠ .number) : t.Denotes := by
  unfold Denotes literalValue
  generalize t.kind = k at hl hn
  cases hl with
  | number => exact absurd rfl hn
  | string => exact ⟨.text t.lexeme, rfl⟩
  | true => exact ⟨.boolean true, rfl⟩
  | false => exact ⟨.boolean false, rfl⟩
  | nil => exact ⟨.nil, rfl⟩

/-- **The segments of a text are lexemes**, but for unexpected characters. By
induction on the cut: each segment is the first one of some text. -/
theorem lexeme_of_mem_segments {cs : List Char} {g : Segment}
    (h : g ∈ segments cs) (hkind : g.kind ≠ .unexpected) :
    ∃ rest, Lexeme g.kind g.text rest := by
  fun_induction segments cs with
  | case1 => cases h
  | case2 c cs ih =>
    -- The first segment is the longest lexeme at the front, unless no lexeme is
    -- there and a stray character is cut off.
    rcases List.mem_cons.1 h with hhead | htail
    · rcases Segment.lexeme_next c cs with hstray | hlexeme
      · rw [hhead, hstray] at hkind
        exact absurd rfl hkind
      · rw [← hhead] at hlexeme
        exact ⟨_, hlexeme⟩
    · exact ih htail

/-- Locating segments adds places and changes nothing else. -/
theorem mem_of_mem_locate {p q : Position} {g : Segment} {gs : List Segment}
    (h : (q, g) ∈ locate p gs) : g ∈ gs := by
  induction gs generalizing p with
  | nil => cases h
  | cons g' gs ih =>
    rcases List.mem_cons.1 h with hhead | htail
    · exact List.mem_cons.2 (.inl (Prod.mk.inj hhead).2)
    · exact List.mem_cons_of_mem _ (ih htail)

/-- **Every literal among the tokens of a text stands for a value.** For words,
strings and punctuators this is decided by the kind. A number has the text of
its segment, which is a lexeme. -/
theorem denotes_scan (source : SourceText) {t : Token}
    (ht : t ∈ source.scan.tokens) (hl : IsLiteral t.kind) : t.Denotes := by
  rcases List.mem_append.1 ht with ht | ht
  · obtain ⟨⟨p, g⟩, hg, htoken⟩ := List.mem_filterMap.1 ht
    cases g with
    -- The one kind of literal whose text could fail to be read.
    | number ds =>
      obtain ⟨rest, hlexeme⟩ : ∃ rest, Lexeme .number ds rest :=
        lexeme_of_mem_segments (mem_of_mem_locate hg) nofun
      obtain ⟨x, hx⟩ := Decimal.exists_readFloat hlexeme
      obtain rfl := Option.some.inj htoken
      refine ⟨.number x, ?_⟩
      unfold literalValue
      rw [hx]
    | string us =>
      obtain rfl := Option.some.inj htoken
      exact Token.denotes_of_ne_number hl nofun
    | word cs =>
      obtain rfl := Option.some.inj htoken
      have hn : wordKind cs ≠ .number := by
        unfold wordKind
        split <;> exact nofun
      exact Token.denotes_of_ne_number hl hn
    | punctuator m =>
      obtain rfl := Option.some.inj htoken
      cases hl
    | blank | comment | unclosed | stray => cases htoken
  · rw [List.mem_singleton.1 ht] at hl
    cases hl

/-! ## Trees whose literals have values

The property of tokens goes up to trees along the grammar, for expressions by
induction on their derivation. -/

/-- **Every literal of the expression stands for a value.** -/
def Expr.Denotes : Expr → Prop
  | literal t => t.Denotes
  | reference _ => True
  | grouping e | unary _ e | assign _ e => e.Denotes
  | binary _ l r => l.Denotes ∧ r.Denotes

/-- Literals of an expression are literals among its tokens. -/
theorem Grammar.Derives.denotes {c : Category} {ts : List Token} {e : Expr}
    {n : Nat} (h : Derives c ts e n)
    (hT : ∀ t ∈ ts, IsLiteral t.kind → t.Denotes) : e.Denotes := by
  induction h with
  | expression _ ih | equality _ ih | operand _ ih | primary _ ih => exact ih hT
  | assign _ _ _ ih =>
    exact ih fun t ht =>
      hT t (List.mem_cons_of_mem _ (List.mem_cons_of_mem _ ht))
  | link _ _ _ _ ihl ihr =>
    exact ⟨ihl fun t ht => hT t (List.mem_append_left _ ht),
      ihr fun t ht =>
        hT t (List.mem_append_right _ (List.mem_cons_of_mem _ ht))⟩
  | unary _ _ _ ih => exact ih fun t ht => hT t (List.mem_cons_of_mem _ ht)
  | literal hl => exact hT _ (List.mem_singleton_self _) hl
  | name => trivial
  | grouping _ _ _ ih =>
    exact ih fun t ht =>
      hT t (List.mem_cons_of_mem _ (List.mem_append_left _ ht))

/-- The tokens from which trees with values are read. -/
abbrev DenotesIfLiteral (t : Token) : Prop := IsLiteral t.kind → t.Denotes

/-- The literals of an expression that was read have values. -/
theorem Expr.Derived.denotes {b : Nat} {e : Expr}
    (h : e.Derived DenotesIfLiteral b) : e.Denotes := by
  obtain ⟨ts, n, hd, -, hT⟩ := h
  exact hd.denotes hT

/-- **Literals of a tree that was read have values**, if those of the tokens
have. The literal `true` has one anyway. -/
theorem Stmt.Derived.denotes {b : Nat} {s : Stmt}
    (h : s.Derived DenotesIfLiteral b) : s.Every Expr.Denotes :=
  h.every (fun _ _ he => he.denotes) fun _ => ⟨.boolean true, rfl⟩

/-! ## Runs without internal errors

Operators and names raise errors of their own kinds, so that literals are left.
-/

/-- **A fault of the interpreter itself.** -/
def RuntimeError.IsInternal (e : RuntimeError) : Prop :=
  ∃ message, e.fault = .internal message

/-- The execution was stopped by a fault of the interpreter itself. -/
def Halt.IsInternal : Halt → Prop
  | .error e => e.IsInternal
  | .tooManyRounds => False

/-- The only error of a unary operator is that its operand is no number. -/
theorem UnaryOp.apply_error {op : Located UnaryOp} {v : Value}
    {e : RuntimeError} (h : UnaryOp.apply op v = .error e) :
    e = ⟨op.span, .unaryTypeMismatch op.value.text v.type⟩ := by
  unfold UnaryOp.apply at h
  split at h <;> cases h
  rfl

/-- The only error of a binary operator is that it is not defined for its
operands. -/
theorem BinaryOp.apply_error {op : Located BinaryOp} {x y : Value}
    {e : RuntimeError} (h : BinaryOp.apply op x y = .error e) :
    ∃ expected, e = BinaryOp.mismatch op expected x y := by
  have hnumbers {f : Float → Float → Value}
      (h : BinaryOp.onNumbers op f x y = .error e) :
      ∃ expected, e = BinaryOp.mismatch op expected x y := by
    unfold BinaryOp.onNumbers at h
    split at h <;> cases h
    exact ⟨_, rfl⟩
  unfold BinaryOp.apply at h
  split at h
  · unfold BinaryOp.sum at h
    split at h <;> cases h
    exact ⟨_, rfl⟩
  -- Equality is defined for all values; every other operator asks for numbers.
  all_goals first | exact hnumbers h | cases h

theorem UnaryOp.apply_not_internal (op : Located UnaryOp) (v : Value) :
    ∀ e, UnaryOp.apply op v = .error e → ¬ e.IsInternal := by
  rintro e he ⟨message, hm⟩
  rw [UnaryOp.apply_error he] at hm
  cases hm

theorem BinaryOp.apply_not_internal (op : Located BinaryOp) (x y : Value) :
    ∀ e, BinaryOp.apply op x y = .error e → ¬ e.IsInternal := by
  rintro e he ⟨message, hm⟩
  obtain ⟨expected, rfl⟩ := BinaryOp.apply_error he
  cases hm

theorem undefinedVariable_not_internal (name : Token) :
    ¬ (undefinedVariable name).IsInternal := by
  rintro ⟨message, hm⟩
  cases hm

/-- **Evaluating raises no internal error**, if all literals have values. The
cases are those of evaluation, with the errors that operators and names raise
ruled out by their form. -/
theorem Expr.Denotes.eval {e : Expr} (h : e.Denotes) (env : Env) :
    ∀ x, (e.eval env).1 = .error x → ¬ x.IsInternal := by
  induction e generalizing env with
  | literal t =>
    obtain ⟨v, hv⟩ := h
    intro x hx
    cases hv.symm.trans hx
  | reference name =>
    intro x hx
    unfold Expr.eval at hx
    split at hx <;> cases hx
    exact undefinedVariable_not_internal name
  | grouping e ih => exact ih h env
  | assign name e ih =>
    rw [eval_assign]
    refine andThen_error (ih h env) fun v env x hx => ?_
    unfold store at hx
    split at hx <;> cases hx
    exact undefinedVariable_not_internal name
  | unary op e ih =>
    rw [eval_unary]
    exact andThen_error (ih h env) fun v _ => UnaryOp.apply_not_internal op v
  | binary op l r ihl ihr =>
    rw [eval_binary]
    exact andThen_error (ihl h.1 env) fun x env =>
      andThen_error (ihr h.2 env) fun y _ => BinaryOp.apply_not_internal op x y

-- A tree that was not read may raise one: here a name stands as a literal.
example : ((Expr.literal ⟨.identifier, "x", .unknown⟩).eval {}).1
    = .error ⟨.unknown, .internal "`x` is not a literal"⟩ := by
  rfl

/-! ## Errors of statements

A statement evaluates expressions, and whatever stops it comes from one of
these. The property of errors is a parameter here. -/

/-- **What stops an expression satisfies `P`**, whatever the environment. The
environment is out of reach here: a statement may have changed it in any way
before the expression is evaluated. -/
def Expr.Raises (P : Halt → Prop) (e : Expr) : Prop :=
  ∀ env x, (e.eval env).1 = .error x → P (.error x)

section Raises

variable {P : Halt → Prop} {e : Expr}

/-- On a machine the environment is that of the machine, and the error is the
same one. -/
theorem Expr.Raises.evalMachine (h : e.Raises P) (m : Machine) :
    ∀ x, (m.eval e).1 = .error x → P x := by
  intro x hx
  have hx : (e.eval m.env).1.mapError Halt.error = .error x := hx
  cases hr : (e.eval m.env).1 with
  | ok v =>
    rw [hr] at hx
    cases hx
  | error y =>
    rw [hr] at hx
    cases hx
    exact h m.env y hr

/-- Testing a condition raises what evaluating it does: every value has a truth
value. -/
theorem Expr.Raises.holds (h : e.Raises P) (m : Machine) :
    ∀ x, (m.holds e).1 = .error x → P x := by
  rw [Machine.holds_eq]
  exact andThen_error (h.evalMachine m) fun _ _ _ hx => nomatch hx

end Raises

namespace Stmt

variable {rounds : Nat} {s : Stmt} {body : List Stmt}

section Error

variable {P : Halt → Prop} {Q : Expr → Prop}

/-- The step of `exec_error` for lists of statements. -/
theorem execAll_error
    (h : ∀ s ∈ body, ∀ m x, (exec rounds s m).1 = .error x → P x)
    (m : Machine) : ∀ x, (execAll rounds body m).1 = .error x → P x := by
  induction body generalizing m with
  | nil =>
    rw [execAll_nil]
    exact nofun
  | cons s ss ih =>
    obtain ⟨hs, hss⟩ := List.forall_mem_cons.1 h
    rw [execAll_cons]
    exact andThen_error (hs m) fun _ m => ih hss m

/-- **What stops a statement is an error of one of its expressions**, or that a
loop was cut off. Both the property of errors and that of expressions are
parameters, so that the statement serves for internal errors as well as for the
places of errors. -/
theorem exec_error (hcut : P .tooManyRounds) (hQ : ∀ e, Q e → e.Raises P)
    (h : s.Every Q) (m : Machine) :
    ∀ x, (s.exec rounds m).1 = .error x → P x := by
  induction h generalizing m with
  | block _ ih =>
    rw [exec_block]
    exact execAll_error ih m.enter
  | expression h =>
    rw [exec_expression]
    exact andThen_error ((hQ _ h).evalMachine m) fun _ _ _ hx => nomatch hx
  | @branch span c thenStmt elseStmt hc _ _ iht ihe =>
    rw [exec_branch]
    refine andThen_error ((hQ c hc).holds m) fun holds m => ?_
    cases holds with
    | true => exact iht m
    | false =>
      cases elseStmt with
      | none => exact nofun
      | some s => exact ihe s rfl m
  | print h =>
    rw [exec_print]
    exact andThen_error ((hQ _ h).evalMachine m) fun _ _ _ hx => nomatch hx
  | @define span name initial h =>
    rw [exec_define]
    refine andThen_error ?_ fun _ _ _ hx => nomatch hx
    cases initial with
    | none => exact nofun
    | some e => exact (hQ e (h e rfl)).evalMachine m
  | loop hc _ ih =>
    rw [exec_loop]
    exact whileLoop_error hcut (hQ _ hc).holds ih rounds m

end Error

/-- **Executing raises no internal error**, if all literals have values. -/
theorem exec_not_internal (h : s.Every Expr.Denotes) (m : Machine) :
    ∀ x, (s.exec rounds m).1 = .error x → ¬ x.IsInternal :=
  exec_error id (fun _ he env x hx => he.eval env x hx) h m

end Stmt

/-! ## Diagnostics

What was shown of errors is told of the diagnostics that report them: only an
internal error is reported as fatal, or under the code of internal errors. -/

/-- The diagnostic tells of a fault of the interpreter itself. -/
def Diagnostic.IsInternal (d : Diagnostic) : Prop :=
  d.severity = .fatal ∨ d.code = some "E900"

/-- Lexical faults are errors or warnings, under codes of their own. -/
theorem LexicalError.diagnostic_not_internal (e : LexicalError) :
    ¬ e.diagnostic.IsInternal := by
  obtain ⟨span, fault⟩ := e
  cases fault <;> simp [Diagnostic.IsInternal, diagnostic, LexicalFault.severity,
    LexicalFault.code]

/-- Faults of the grammar are errors under codes of their own. -/
theorem ParseError.diagnostic_not_internal (e : ParseError) :
    ¬ e.diagnostic.IsInternal := by
  cases e <;> simp [Diagnostic.IsInternal, diagnostic, code]

/-- Among runtime errors only an internal one is reported as such. -/
theorem RuntimeError.isInternal_of_diagnostic {e : RuntimeError}
    (h : e.diagnostic.IsInternal) : e.IsInternal := by
  obtain ⟨span, fault⟩ := e
  cases fault with
  | internal message => exact ⟨message, rfl⟩
  | _ => simp [Diagnostic.IsInternal, diagnostic, RuntimeFault.severity,
      RuntimeFault.code] at h

/-- At most one error stops an execution, and it is the one that is reported. -/
theorem not_internal_of_mem_haltDiagnostics {r : Except Halt Unit}
    (h : ∀ x, r = .error x → ¬ x.IsInternal) :
    ∀ d ∈ haltDiagnostics r, ¬ d.IsInternal := by
  intro d hd
  unfold haltDiagnostics at hd
  split at hd
  · rename_i e
    rw [List.mem_singleton.1 hd]
    exact fun he => h _ rfl (RuntimeError.isInternal_of_diagnostic he)
  · cases hd

/-- **Internal errors are out of reach.** Whatever a source text is, whether it
follows the grammar or not, and whatever the state: no statement that is read
from it raises an internal error, nor do they all in order; no diagnostic of a
run is fatal or has the code of internal errors; and no expression that is read
from tokens of the text raises one. -/
theorem internal_unreachable (source : SourceText) :
    let statements := (parse source.scan.tokens).statements
    (∀ s ∈ statements, ∀ rounds m span message,
      (s.exec rounds m).1 ≠ .error (.error ⟨span, .internal message⟩))
    ∧ (∀ rounds m span message, (Stmt.execAll rounds statements m).1
        ≠ .error (.error ⟨span, .internal message⟩))
    ∧ (∀ rounds env, ∀ d ∈ (source.run rounds env).diagnostics,
        d.severity ≠ .fatal ∧ d.code ≠ some "E900")
    ∧ ∀ (stream : TokenStream) (e : Expr),
        (∀ t ∈ stream.tokens, t ∈ source.scan.tokens) →
        stream.expression.outcome = .ok e →
        ∀ env span message,
          (e.eval env).1 ≠ .error ⟨span, .internal message⟩ := by
  intro statements
  have hscan : ∀ t ∈ source.scan.tokens, DenotesIfLiteral t :=
    fun t ht => denotes_scan source ht
  have hexec : ∀ s ∈ statements, ∀ rounds m x,
      (s.exec rounds m).1 = .error x → ¬ x.IsInternal :=
    fun s hs rounds m =>
      Stmt.exec_not_internal (derived_parse hscan s hs).denotes m
  have hexecAll : ∀ rounds m x,
      (Stmt.execAll rounds statements m).1 = .error x → ¬ x.IsInternal :=
    fun rounds => Stmt.execAll_error fun s hs => hexec s hs rounds
  refine ⟨?_, ?_, ?_, ?_⟩
  · intro s hs rounds m span message h
    exact hexec s hs rounds m _ h ⟨message, rfl⟩
  · intro rounds m span message h
    exact hexecAll rounds m _ h ⟨message, rfl⟩
  · intro rounds env d hd
    have hd : ¬ d.IsInternal := by
      rw [source.diagnostics_run] at hd
      rcases List.mem_append.1 hd with hd | hd
      · rcases List.mem_append.1 hd with hd | hd
        · obtain ⟨e, -, rfl⟩ := List.mem_map.1 hd
          exact e.diagnostic_not_internal
        · obtain ⟨e, -, rfl⟩ := List.mem_map.1 hd
          exact e.diagnostic_not_internal
      · exact not_internal_of_mem_haltDiagnostics (hexecAll rounds _) d hd
    exact not_or.1 hd
  · intro stream e hsub he env span message h
    have hderived := Rule.derived_expression DenotesIfLiteral nestingBudget
      stream (fun t ht => hscan t (hsub t ht)) e he
    exact hderived.denotes.eval env _ h ⟨message, rfl⟩

end TreeScript
