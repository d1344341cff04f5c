import TreeScript.Proofs.Exec.Provenance
import TreeScript.Proofs.Exec.Rounds

/-!
# Layout

Blanks, line breaks and comments stand between tokens, and all they do is to move
tokens to other places. Places do not matter: texts with the same tokens in the
same order, by kind and text, are read into the same trees up to places
(`Stmt.Like.bare_eq`) and do the same when they are run (`Stmt.Like.abreast`).

Two runs are compared by going **abreast**. At each step they have the same value
or the same fault, though maybe at different places, and their states have the
same scopes and the same new events. Of the events in front of these nothing is
asked, as texts with other names and other lexical faults have other events when
they are read.

That the trees are alike is the work of the parser and is shown for every
likeness of tokens at once (`like_parse`). So the module has two parts: what
alike trees have in common as trees, and what they have in common when they are
run. The first is an equation between trees from which all places were taken
(`Stmt.bare`), the second a relation between runs, with the same rules for
sequences and loops as everywhere.
-/

namespace TreeScript

/-! ## Up to places

Taking the places away gives each phase an equation to be compared by: trees,
diagnostics, and what stopped a run. -/

/-- The token without its place. -/
def Token.bare (t : Token) : Token := { t with span := .unknown }

/-- The operator without its place. -/
def Located.bare {α : Type} (x : Located α) : Located α := ⟨.unknown, x.value⟩

/-- **The expression without its places.** Two expressions that are equal in
this form differ in places only, and not in names, operators or literals. -/
def Expr.bare : Expr → Expr
  | assign name value => assign name.bare value.bare
  | binary op lhs rhs => binary op.bare lhs.bare rhs.bare
  | grouping inner => grouping inner.bare
  | literal token => literal token.bare
  | unary op operand => unary op.bare operand.bare
  | reference name => reference name.bare

namespace Stmt

mutual

/-- **The statement without its places.** -/
def bare : Stmt → Stmt
  | block _ body => block .unknown (bareAll body)
  | expression _ e => expression .unknown e.bare
  | branch _ c t none => branch .unknown c.bare t.bare none
  | branch _ c t (some e) => branch .unknown c.bare t.bare (some e.bare)
  | print _ e => print .unknown e.bare
  | define _ n e => define .unknown n.bare (e.map Expr.bare)
  | loop _ c b => loop .unknown c.bare b.bare

/-- Statements without their places. -/
def bareAll : List Stmt → List Stmt
  | [] => []
  | s :: ss => s.bare :: bareAll ss

end

/-- The recursion through lists of statements is a `map`. -/
theorem bareAll_eq_map (ss : List Stmt) : bareAll ss = ss.map bare := by
  induction ss with
  | nil => rfl
  | cons s ss ih =>
    rw [bareAll, ih]
    rfl

end Stmt

/-- The diagnostic without its place. -/
def Diagnostic.bare (d : Diagnostic) : Diagnostic := { d with span := .unknown }

/-- What stopped the execution, without the place; none if a loop was cut
off. -/
def Halt.fault? : Halt → Option RuntimeFault
  | .error e => some e.fault
  | .tooManyRounds => none

/-! ## Tokens with the same text

The likeness of this module, and what it means for trees and for faults of the
grammar. -/

/-- **Tokens are alike if they have the same kind and the same text.** -/
def Likeness.sameText : Likeness where
  rel t u := t.kind = u.kind ∧ t.lexeme = u.lexeme
  kind_eq h := h.1

/-- Token lists are alike, position by position, if they show the same kinds and
texts. -/
theorem forall₂_sameText_iff {ts us : List Token} :
    List.Forall₂ Likeness.sameText.rel ts us
      ↔ ts.map (fun t => (t.kind, t.lexeme))
        = us.map (fun t => (t.kind, t.lexeme)) := by
  rw [← List.forall₂_eq_eq_eq, List.forall₂_map_left_iff,
    List.forall₂_map_right_iff]
  simp only [Prod.mk.injEq]
  rfl

section BareEq

theorem Token.bare_eq {t u : Token} (h : Likeness.sameText.rel t u) :
    t.bare = u.bare := by
  unfold bare
  rw [h.1, h.2]

theorem Located.Like.bare_eq {α : Type} {text : α → String} {x y : Located α}
    (h : x.Like .sameText text y) : x.bare = y.bare := by
  obtain ⟨-⟩ := h
  rfl

/-- Expressions over tokens with the same texts are the same up to places. -/
theorem Expr.Like.bare_eq {e f : Expr} (h : e.Like .sameText f) :
    e.bare = f.bare := by
  induction h with
  | assign hn _ _ ih => rw [bare, bare, Token.bare_eq hn, ih]
  | binary hop _ _ ihl ihr => rw [bare, bare, hop.bare_eq, ihl, ihr]
  | grouping _ ih => rw [bare, bare, ih]
  | literal h => rw [bare, bare, Token.bare_eq h]
  | truth => rfl
  | unary hop _ ih => rw [bare, bare, hop.bare_eq, ih]
  | reference hn => rw [bare, bare, Token.bare_eq hn]

/-- Equality up to places, position by position and as lists. -/
theorem map_bare_eq {ss us : List Stmt}
    (h : List.Forall₂ (fun s u : Stmt => s.bare = u.bare) ss us) :
    ss.map Stmt.bare = us.map Stmt.bare := by
  rwa [← List.forall₂_eq_eq_eq, List.forall₂_map_left_iff,
    List.forall₂_map_right_iff]

/-- **Statements over tokens with the same texts are the same up to places.**
The relation between trees has a case for each form, and each form is rebuilt
from parts that are equal without their places. -/
theorem Stmt.Like.bare_eq {s u : Stmt} (h : s.Like .sameText u) :
    s.bare = u.bare := by
  refine h.induction (P := fun s u => s.bare = u.bare) ?block ?expression
    ?branch ?print ?define ?loop
  case block =>
    intro a b ss us h
    rw [bare, bare, bareAll_eq_map, bareAll_eq_map, map_bare_eq h]
  case expression =>
    intro a b e f h
    rw [bare, bare, h.bare_eq]
  case branch =>
    intro a b c d s u e f hc hs he
    cases he with
    | none => rw [bare, bare, hc.bare_eq, hs]
    | some he => rw [bare, bare, hc.bare_eq, hs, he]
  case print =>
    intro a b e f h
    rw [bare, bare, h.bare_eq]
  case define =>
    intro a b n k e f hn _ he
    cases he with
    | none => rw [bare, bare, Token.bare_eq hn]
    | some he =>
      rw [bare, bare, Token.bare_eq hn, Option.map_some, he.bare_eq]
      rfl
  case loop =>
    intro a b c d s u hc hs
    rw [bare, bare, hc.bare_eq, hs]

/-- A token is quoted in messages by its kind and its text. -/
theorem Token.quoted_eq {t u : Token} (h : Likeness.sameText.rel t u) :
    t.quoted = u.quoted := by
  unfold quoted
  rw [h.1, h.2]

/-- Faults at tokens with the same texts are told in the same way. -/
theorem ParseError.Like.bare_diagnostic_eq {e f : ParseError}
    (h : e.Like .sameText f) : e.diagnostic.bare = f.diagnostic.bare := by
  have hmessage : e.message = f.message := by
    cases h with
    | invalidAssignmentTarget => rfl
    | _ h => exact congrArg (_ ++ ·) (Token.quoted_eq h)
  have hcode : e.code = f.code := by cases h <;> rfl
  unfold diagnostic Diagnostic.bare
  rw [hmessage, hcode]

end BareEq

/-! ## Expressions abreast

Places enter evaluation only where an error takes one along. So values are
equal, and errors are equal up to the place. -/

section Eval

/-- A literal has its value by its kind and its text. A text that is no number
fails with a message about that text. -/
theorem literalValue_abreast {t u : Token} (h : Likeness.sameText.rel t u) :
    (literalValue u).mapError RuntimeError.fault
      = (literalValue t).mapError RuntimeError.fault := by
  obtain ⟨kind, lexeme, span⟩ := t
  obtain ⟨kind', lexeme', span'⟩ := u
  obtain ⟨rfl, rfl⟩ := h
  unfold literalValue
  dsimp only
  split
  · split <;> rfl
  all_goals rfl

/-- The place of an operator is used for errors only. -/
theorem UnaryOp.apply_abreast {op oq : Located UnaryOp}
    (h : op.Like .sameText UnaryOp.text oq) (v : Value) :
    (UnaryOp.apply oq v).mapError RuntimeError.fault
      = (UnaryOp.apply op v).mapError RuntimeError.fault := by
  obtain ⟨-⟩ := h
  unfold UnaryOp.apply
  dsimp only
  split <;> rfl

theorem BinaryOp.apply_abreast {op oq : Located BinaryOp}
    (h : op.Like .sameText BinaryOp.text oq) (x y : Value) :
    (BinaryOp.apply oq x y).mapError RuntimeError.fault
      = (BinaryOp.apply op x y).mapError RuntimeError.fault := by
  obtain ⟨-⟩ := h
  have hnumbers {a b : Span} (op : BinaryOp) (f : Float → Float → Value) :
      (onNumbers ⟨b, op⟩ f x y).mapError RuntimeError.fault
        = (onNumbers ⟨a, op⟩ f x y).mapError RuntimeError.fault := by
    unfold onNumbers
    split <;> rfl
  unfold BinaryOp.apply
  dsimp only
  split
  · unfold sum
    split <;> rfl
  all_goals first | exact hnumbers _ _ | rfl

/-- The fault names the variable and keeps its place apart. -/
theorem fault_undefinedVariable {n k : Token} (h : Likeness.sameText.rel n k) :
    (undefinedVariable k).fault = (undefinedVariable n).fault :=
  congrArg RuntimeFault.undefinedVariable h.2.symm

/-- **Evaluating goes abreast** over tokens with the same texts. The two
evaluations start in the same environment and stay in one: only errors have
places, and those are not compared. -/
theorem Expr.Like.abreast_eval {e f : Expr} (h : e.Like .sameText f)
    (env : Env) : Abreast RuntimeError.fault Eq (e.eval env) (f.eval env) := by
  induction h generalizing env with
  | literal h => exact ⟨literalValue_abreast h, rfl⟩
  -- The made-up `true` of a loop without condition, at the place of the `for`
  -- of each text.
  | truth => exact ⟨rfl, rfl⟩
  | @reference n k hn =>
    unfold Expr.eval
    rw [← hn.2]
    cases env.find? n.lexeme with
    | some v => exact ⟨rfl, rfl⟩
    | none => exact ⟨congrArg Except.error (fault_undefinedVariable hn), rfl⟩
  | grouping _ ih => exact ih env
  | @assign n k e f hn _ _ ih =>
    rw [eval_assign, eval_assign]
    refine (ih env).andThen fun v env _ henv => ?_
    obtain rfl := henv
    unfold store
    rw [← hn.2]
    cases env.overwrite? n.lexeme v with
    | some env' => exact ⟨rfl, rfl⟩
    | none => exact ⟨congrArg Except.error (fault_undefinedVariable hn), rfl⟩
  | unary hop _ ih =>
    rw [eval_unary, eval_unary]
    exact (ih env).andThen fun v _ _ henv => ⟨UnaryOp.apply_abreast hop v, henv⟩
  | binary hop _ _ ihl ihr =>
    rw [eval_binary, eval_binary]
    refine (ihl env).andThen fun x env _ henv => ?_
    obtain rfl := henv
    exact (ihr env).andThen fun y _ _ henv =>
      ⟨BinaryOp.apply_abreast hop x y, henv⟩

end Eval

/-! ## Machines abreast

The events of two runs begin differently, from the reading of two texts. What is
compared are the events since then. -/

namespace Machine

/-- **States with the same scopes and the same new events**, behind events `a`
and `b` that may differ. The events in front come from reading two texts and
need not have anything in common, not even their number. -/
structure Abreast (a b : Array Event) (m m' : Machine) : Prop where
  /-- The scopes are the same. -/
  env : m'.env = m.env
  /-- The same was let known since. -/
  events : ∃ new, m.events = a ++ new ∧ m'.events = b ++ new

namespace Abreast

variable {a b : Array Event} {m m' : Machine}

theorem emit (h : Abreast a b m m') (e : Event) :
    Abreast a b (m.emit e) (m'.emit e) := by
  obtain ⟨new, hm, hm'⟩ := h.events
  refine ⟨h.env, new.push e, ?_, ?_⟩
  · rw [Array.append_push, ← hm]
    rfl
  · rw [Array.append_push, ← hm']
    rfl

/-- A definition changes the scopes and is noted, in the same way in both. -/
theorem define (h : Abreast a b m m') (name : String) (v : Value) :
    Abreast a b (m.define name v) (m'.define name v) := by
  have henv : Abreast a b { m with env := m.env.define name v }
      { m' with env := m'.env.define name v } :=
    ⟨congrArg (Env.define · name v) h.env, h.events⟩
  exact henv.emit _

theorem enter (h : Abreast a b m m') : Abreast a b m.enter m'.enter :=
  ⟨congrArg Env.enter h.env, h.events⟩

theorem leave (h : Abreast a b m m') : Abreast a b m.leave m'.leave :=
  ⟨congrArg Env.leave h.env, h.events⟩

variable {e f : Expr}

/-- The machine's evaluation adds no events, and its environments are equal. -/
theorem eval (h : Abreast a b m m') (he : e.Like .sameText f) :
    TreeScript.Abreast Halt.fault? (Abreast a b) (m.eval e) (m'.eval f) := by
  have hfault (r : Except RuntimeError Value) :
      (r.mapError Halt.error).mapError Halt.fault?
        = (r.mapError RuntimeError.fault).mapError some := by
    cases r <;> rfl
  obtain ⟨hr, henv⟩ := he.abreast_eval m.env
  obtain ⟨env, events⟩ := m
  obtain ⟨env', events'⟩ := m'
  obtain rfl : env' = env := h.env
  refine ⟨?_, henv.symm, h.events⟩
  show ((f.eval env').1.mapError Halt.error).mapError _
    = ((e.eval env').1.mapError Halt.error).mapError _
  rw [hfault, hfault, hr]

theorem holds (h : Abreast a b m m') (he : e.Like .sameText f) :
    TreeScript.Abreast Halt.fault? (Abreast a b) (m.holds e) (m'.holds f) := by
  rw [holds_eq, holds_eq]
  exact (h.eval he).andThen fun _ _ _ h => ⟨rfl, h⟩

end Abreast

end Machine

/-! ## Statements abreast

One case for each form, along the relation between the two statements. -/

namespace Stmt

variable {a b : Array Event} {rounds : Nat}

/-- The statements go abreast, from all states that do. -/
def Abreast (a b : Array Event) (rounds : Nat) (s u : Stmt) : Prop :=
  ∀ ⦃m m' : Machine⦄, m.Abreast a b m' →
    TreeScript.Abreast Halt.fault? (Machine.Abreast a b) (exec rounds s m)
      (exec rounds u m')

/-- Lists of alike statements, of the same length by their relation, stop at the
same statement. -/
theorem abreast_execAll {ss us : List Stmt}
    (h : List.Forall₂ (Abreast a b rounds) ss us) {m m' : Machine}
    (hm : m.Abreast a b m') :
    TreeScript.Abreast Halt.fault? (Machine.Abreast a b) (execAll rounds ss m)
      (execAll rounds us m') := by
  induction h generalizing m m' with
  | nil =>
    rw [execAll_nil, execAll_nil]
    exact ⟨rfl, hm⟩
  | cons hs _ ih =>
    rw [execAll_cons, execAll_cons]
    exact (hs hm).andThen fun _ _ _ hm => ih hm

/-- **Statements over tokens with the same texts go abreast**, through all
blocks, loops and errors. The induction is on the relation between the
statements. Each case is a sequence or a loop, whose rule was shown before. -/
theorem Like.abreast {s u : Stmt} (h : s.Like .sameText u) :
    Abreast a b rounds s u := by
  refine h.induction (P := Abreast a b rounds) ?block ?expression ?branch ?print
    ?define ?loop
  case block =>
    intro _ _ ss us h m m' hm
    obtain ⟨hr, hm⟩ := abreast_execAll h hm.enter
    rw [exec_block, exec_block]
    exact ⟨hr, hm.leave⟩
  case expression =>
    intro _ _ e f h m m' hm
    rw [exec_expression, exec_expression]
    exact (hm.eval h).andThen fun _ _ _ hm => ⟨rfl, hm⟩
  case branch =>
    intro _ _ c d s u e f hc hs he m m' hm
    rw [exec_branch, exec_branch]
    refine (hm.holds hc).andThen fun holds m m' hm => ?_
    cases holds with
    | true => exact hs hm
    | false =>
      cases he with
      | none => exact ⟨rfl, hm⟩
      | some he => exact he hm
  case print =>
    intro _ _ e f h m m' hm
    rw [exec_print, exec_print]
    exact (hm.eval h).andThen fun v _ _ hm => ⟨rfl, hm.emit _⟩
  case define =>
    intro _ _ n k e f hn _ he m m' hm
    rw [exec_define, exec_define, hn.2]
    refine TreeScript.Abreast.andThen ?_
      fun v _ _ hm => ⟨rfl, hm.define k.lexeme v⟩
    cases he with
    | none => exact ⟨rfl, hm⟩
    | some he => exact hm.eval he
  case loop =>
    intro _ _ c d s u hc hs m m' hm
    rw [exec_loop, exec_loop]
    exact abreast_whileLoop (fun _ _ hm => hm.holds hc) (fun _ _ hm => hs hm)
      rounds hm

end Stmt

/-! ## Runs of texts with the same tokens

From the relation to what can be observed: the result, the lines, the
environment and the outcome. -/

section Layout

variable {r q : Except Halt Unit}

/-- Being cut off is visible without places. -/
theorem mapError_fault?_eq_none :
    r.mapError Halt.fault? = .error none ↔ r = .error .tooManyRounds := by
  match r with
  | .ok () => exact ⟨nofun, nofun⟩
  | .error (.error e) => exact ⟨nofun, nofun⟩
  | .error .tooManyRounds => exact ⟨fun _ => rfl, fun _ => rfl⟩

/-- The outcome of a run does not depend on the place of an error. -/
theorem Outcome.of_eq_of_fault? (errors : Nat)
    (h : r.mapError Halt.fault? = q.mapError Halt.fault?) :
    Outcome.of errors r = Outcome.of errors q := by
  match r, q, h with
  | .ok (), .ok (), _ => rfl
  | .error (.error _), .error (.error _), _ => rfl
  | .error .tooManyRounds, .error .tooManyRounds, _ => rfl

/-- The lines of states that go abreast are those of the events in front, and then
the same ones. -/
theorem Machine.Abreast.lines {a b : Array Event} {m m' : Machine}
    (h : m.Abreast a b m') :
    ∃ new, m.lines = a.toList.filterMap Event.line? ++ new
      ∧ m'.lines = b.toList.filterMap Event.line? ++ new := by
  obtain ⟨new, hm, hm'⟩ := h.events
  refine ⟨new.toList.filterMap Event.line?, ?_, ?_⟩
  · rw [Machine.lines, hm, Array.toList_append, List.filterMap_append]
  · rw [Machine.lines, hm', Array.toList_append, List.filterMap_append]

variable {a b : SourceText}

/-- **Layout never affects meaning.** Texts, under whatever names, with the same
tokens by kind and text give the same statements and the same faults of the
grammar, up to places. Run from the same state they go on forever together, or
else they end in the same way, up to the place of an error, print the same lines
and leave the same state. This holds under every bound on the rounds of loops.
If they have equally many lexical errors, leaving warnings aside, they also have
the same outcome. -/
theorem layout_irrelevant
    (h : a.scan.tokens.map (fun t => (t.kind, t.lexeme))
      = b.scan.tokens.map (fun t => (t.kind, t.lexeme))) :
    let p := parse a.scan.tokens
    let q := parse b.scan.tokens
    p.statements.map Stmt.bare = q.statements.map Stmt.bare
    ∧ p.errors.map (·.diagnostic.bare) = q.errors.map (·.diagnostic.bare)
    ∧ ∀ env, (Diverges (a.execute · env) ↔ Diverges (b.execute · env))
      ∧ ∀ rounds,
        (a.execute rounds env).1.mapError Halt.fault?
          = (b.execute rounds env).1.mapError Halt.fault?
        ∧ (a.run rounds env).lines = (b.run rounds env).lines
        ∧ (a.run rounds env).env = (b.run rounds env).env
        ∧ (a.scan.errors.countP (·.fault.severity == .error)
            = b.scan.errors.countP (·.fault.severity == .error) →
          (a.run rounds env).outcome = (b.run rounds env).outcome) := by
  intro p q
  obtain ⟨hstatements, herrors⟩ :=
    like_parse (forall₂_sameText_iff.2 h) (exists_isEnd_scan a)
  have habreast (rounds : Nat) (env : Env) :
      Abreast Halt.fault? (Machine.Abreast (a.start env).events
        (b.start env).events) (a.execute rounds env) (b.execute rounds env) :=
    Stmt.abreast_execAll (hstatements.imp fun _ _ hs => hs.abreast)
      -- Both runs start from the same scopes; nothing is new yet.
      ⟨rfl, #[], by simp, by simp⟩
  refine ⟨map_bare_eq (hstatements.imp fun _ _ hs => hs.bare_eq), ?_,
    fun env => ⟨?_, fun rounds => ⟨?_, ?_, ?_, fun hcount => ?_⟩⟩⟩
  · rw [← List.forall₂_eq_eq_eq, List.forall₂_map_left_iff,
      List.forall₂_map_right_iff]
    exact herrors.imp fun _ _ he => he.bare_diagnostic_eq
  · refine forall_congr' fun rounds => ?_
    rw [← mapError_fault?_eq_none, ← mapError_fault?_eq_none,
      (habreast rounds env).1]
  · exact (habreast rounds env).1.symm
  · obtain ⟨new, ha, hb⟩ := (habreast rounds env).2.lines
    rw [a.run_lines, b.run_lines, ha, hb]
    exact congrArg (· ++ new)
      ((a.lines_start env).trans (b.lines_start env).symm)
  · rw [a.run_env, b.run_env]
    exact (habreast rounds env).2.env.symm
  · rw [a.run_outcome, b.run_outcome, a.errorCount_read, b.errorCount_read,
      hcount, herrors.length_eq]
    exact Outcome.of_eq_of_fault? _ (habreast rounds env).1.symm

end Layout

/-- A loop on one line. -/
def narrowLoop : SourceText := ⟨"narrow", "while(x)x=y;"⟩

/-- The same loop on two lines, with a comment. -/
def wideLoop : SourceText := ⟨"wide", "while (x) // again\n  x = y ;"⟩

/-- The two loops have the same tokens, so they do the same from every state. -/
theorem layout_irrelevant_loop :
    narrowLoop.scan.tokens.map (fun t => (t.kind, t.lexeme))
        = wideLoop.scan.tokens.map (fun t => (t.kind, t.lexeme))
      ∧ ∀ env,
        (Diverges (narrowLoop.execute · env) ↔ Diverges (wideLoop.execute · env))
        ∧ ∀ rounds, (narrowLoop.run rounds env).env = (wideLoop.run rounds env).env
          ∧ (narrowLoop.run rounds env).outcome
            = (wideLoop.run rounds env).outcome := by
  have htokens : narrowLoop.scan.tokens.map (fun t => (t.kind, t.lexeme))
      = wideLoop.scan.tokens.map (fun t => (t.kind, t.lexeme)) := by
    cbv
  have hcount : narrowLoop.scan.errors.countP (·.fault.severity == .error)
      = wideLoop.scan.errors.countP (·.fault.severity == .error) := by
    cbv
  obtain ⟨-, -, hrun⟩ := layout_irrelevant htokens
  refine ⟨htokens, fun env => ⟨(hrun env).1, fun rounds => ?_⟩⟩
  obtain ⟨-, -, henv, houtcome⟩ := (hrun env).2 rounds
  exact ⟨henv, houtcome hcount⟩

end TreeScript
