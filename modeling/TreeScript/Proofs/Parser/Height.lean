import TreeScript.Proofs.Parser.Derived
import TreeScript.Proofs.Parser.Stmt
import TreeScript.Proofs.Token.Munch

/-!
# How high trees are

The nesting budget bounds how deep a program nests, but not how high its trees
are: a chain of operators takes one unit of the budget however long it is, and
its tree has a node for each operator, one below the other on the left. A sum
with `n` plus signs is a tree of height `n + 1`, so there is no bound on the
height of trees (`height_unbounded`), and whatever follows a tree from its root
to its leaves goes as deep as the text is long.

Chains are the only reason. If a step to a left operand is not counted, what is
left of the height is the **depth** of a tree, and five times the budget is
enough for it: one level of nesting passes the four levels of binary operators
and one node that encloses an expression or an operand, and a statement has at
most three nodes for its unit of the budget, those of a `for` loop. Between two
nodes that are counted lies at most one **spine**, a run of steps to left
operands. So trees whose spines have at most `w` steps are at most `w + 1` times
as high as they are deep (`nesting_bounds_height`).

Height and depth are one function (`Expr.extent`, `Stmt.extent`), with the
weight of a step to a left operand as a parameter: one for the height and none
for the depth. So what is proved of a statement by its constructors is proved
for both, and only for expressions do the two have to be compared
(`Expr.height_le_spine`).
-/

namespace TreeScript

open Grammar

/-! ## The extent of a tree

A tree is followed from its root, through statements, expressions and operands,
to where it goes on the longest. An evaluator that calls itself on each part has
as many calls open as there are nodes on such a way. -/

/-- **The longest way from the root of an expression to a leaf**, in nodes,
where a step to a left operand counts `w`. For `w = 1` it is the height, and for
`w = 0` a long chain of operators is no higher than a short one. -/
def Expr.extent (w : Nat) : Expr → Nat
  | literal _ | reference _ => 1
  | assign _ e | grouping e | unary _ e => e.extent w + 1
  | binary _ l r => max (l.extent w + w) (r.extent w + 1)

mutual

/-- **The longest way from the root of a statement to a leaf**, through the
statements and expressions in it. -/
def Stmt.extent (w : Nat) : Stmt → Nat
  | .block _ body => extentAll w body + 1
  | .expression _ e | .print _ e => e.extent w + 1
  | .branch _ c t none => max (c.extent w) (t.extent w) + 1
  | .branch _ c t (some e) =>
    max (c.extent w) (max (t.extent w) (e.extent w)) + 1
  | .define _ _ none => 1
  | .define _ _ (some e) => e.extent w + 1
  | .loop _ c body => max (c.extent w) (body.extent w) + 1

/-- The greatest extent of some statements. -/
def Stmt.extentAll (w : Nat) : List Stmt → Nat
  | [] => 0
  | s :: ss => max (s.extent w) (extentAll w ss)

end

/-- **The height of an expression** counts every node. -/
def Expr.height (e : Expr) : Nat := e.extent 1

/-- **The height of a statement** counts every node. -/
def Stmt.height (s : Stmt) : Nat := s.extent 1

/-- **The depth of an expression** counts no step to a left operand. -/
def Expr.depth (e : Expr) : Nat := e.extent 0

/-- **The depth of a statement** counts no step to a left operand. -/
def Stmt.depth (s : Stmt) : Nat := s.extent 0

/-! ## What nesting bounds

A derivation records its nesting, and each rule that adds to it adds a bounded
number of nodes that are counted. Those rules that add a node without adding to
the nesting are the chains, and of these there are four kinds, one inside the
other. -/

/-- How many nodes of a phrase the nesting inside it does not account for: one
for each level of binary operators, and one for the primary expression. -/
def Grammar.Category.slack : Category → Nat
  | expression => 0
  | assignment => 5
  | binary l => 5 - l.rank
  | unary | primary => 1

/-- A chain may have one node that is counted more than its operands: that of an
operand on the right. -/
theorem Grammar.Precedence.slack_operand (l : Precedence) :
    l.operand.slack + 1 = (Category.binary l).slack := by
  cases l <;> rfl

/-- **Nesting bounds the depth of an expression**, by induction on the
derivation. In a chain, the part on the left is on the same level and its step
does not count. -/
theorem Grammar.Derives.depth_le {c : Category} {ts : List Token} {e : Expr}
    {n : Nat} (h : Derives c ts e n) : e.depth ≤ 5 * n + c.slack := by
  unfold Expr.depth
  induction h with
  | expression _ ih => exact ih
  | @assign _ _ _ e n _ _ _ ih =>
    show e.extent 0 + 1 ≤ 5 * n + 5
    have ih : e.extent 0 ≤ 5 * n + 0 := ih
    omega
  | equality _ ih => exact ih
  | @operand l _ _ n _ ih =>
    have hslack := l.slack_operand
    omega
  | @link l _ _ _ _ _ lhs rhs i j _ _ _ _ ihl ihr =>
    -- The chain on the left is on the same level, the operand one below it.
    have hslack := l.slack_operand
    show max (lhs.extent 0) (rhs.extent 0 + 1) ≤ _
    omega
  | @unary _ _ _ _ e n _ _ _ ih =>
    show e.extent 0 + 1 ≤ 5 * (n + 1) + 1
    have ih : e.extent 0 ≤ 5 * n + 1 := ih
    omega
  | primary _ ih => exact ih
  | literal => exact Nat.le_refl 1
  | name => exact Nat.le_refl 1
  | @grouping _ _ _ e n _ _ _ ih =>
    show e.extent 0 + 1 ≤ 5 * n + 1
    have ih : e.extent 0 ≤ 5 * n + 0 := ih
    omega

theorem Expr.Derived.depth_le {T : Token → Prop} {b : Nat} {e : Expr}
    (h : e.Derived T b) : e.depth ≤ 5 * b := by
  obtain ⟨ts, n, hd, hn, -⟩ := h
  calc e.depth ≤ 5 * n + 0 := hd.depth_le
    _ ≤ 5 * b := Nat.mul_le_mul_left 5 hn

namespace Stmt

variable {w k : Nat}

/-- The extent of a list of statements is bounded by a bound for each of them.
The lemmas below say the same of each kind of statement, for any weight. -/
theorem extentAll_le {body : List Stmt} (h : ∀ s ∈ body, s.extent w ≤ k) :
    extentAll w body ≤ k := by
  induction body with
  | nil =>
    rw [extentAll]
    exact Nat.zero_le k
  | cons s ss ih =>
    obtain ⟨hs, hss⟩ := List.forall_mem_cons.1 h
    rw [extentAll]
    exact Nat.max_le.2 ⟨hs, ih hss⟩

theorem extent_block_le {span : Span} {body : List Stmt}
    (h : ∀ s ∈ body, s.extent w ≤ k) : (block span body).extent w ≤ k + 1 := by
  rw [extent]
  exact Nat.succ_le_succ (extentAll_le h)

/-- The part behind `else` may be missing. -/
theorem extent_branch_le {span : Span} {c : Expr} {t : Stmt} {e : Option Stmt}
    (hc : c.extent w ≤ k) (ht : t.extent w ≤ k) (he : ∀ s ∈ e, s.extent w ≤ k) :
    (branch span c t e).extent w ≤ k + 1 := by
  cases e with
  | none =>
    rw [extent]
    exact Nat.succ_le_succ (Nat.max_le.2 ⟨hc, ht⟩)
  | some s =>
    rw [extent]
    exact Nat.succ_le_succ (Nat.max_le.2 ⟨hc, Nat.max_le.2 ⟨ht, he s rfl⟩⟩)

theorem extent_define_le {span : Span} {name : Token} {initial : Option Expr}
    (h : ∀ e ∈ initial, e.extent w ≤ k) :
    (define span name initial).extent w ≤ k + 1 := by
  cases initial with
  | none =>
    rw [extent]
    exact Nat.succ_le_succ (Nat.zero_le k)
  | some e =>
    rw [extent]
    exact Nat.succ_le_succ (h e rfl)

theorem extent_loop_le {span : Span} {c : Expr} {body : Stmt}
    (hc : c.extent w ≤ k) (hb : body.extent w ≤ k) :
    (loop span c body).extent w ≤ k + 1 := by
  rw [extent]
  exact Nat.succ_le_succ (Nat.max_le.2 ⟨hc, hb⟩)

/-- A `for` loop is three nodes high where it goes on to its body. -/
theorem extent_forLoop_le {span : Span} {c : ForClauses} {body : Stmt}
    (hi : ∀ s ∈ c.initial, s.extent w ≤ k + 1)
    (hc : ∀ e ∈ c.condition, e.extent w ≤ k)
    (hu : ∀ e ∈ c.increment, e.extent w ≤ k) (hb : body.extent w ≤ k + 1) :
    (c.loop span body).extent w ≤ k + 4 := by
  have hround : (body.withIncrement c.increment).extent w ≤ k + 2 := by
    cases hinc : c.increment with
    | none => exact Nat.le_succ_of_le hb
    | some e =>
      refine extent_block_le (List.forall_mem_cons.2 ⟨hb, fun s hs => ?_⟩)
      rw [List.mem_singleton.1 hs, extent]
      exact Nat.succ_le_succ (hu e hinc)
  have hcondition : (c.condition.getD
      (.literal ⟨.keyword .trueKw, "true", span⟩)).extent w ≤ k + 2 := by
    cases hcond : c.condition with
    | none => exact Nat.le_add_left 1 (k + 1)
    | some e => exact Nat.le_add_right_of_le (hc e hcond)
  refine extent_block_le fun s hs => ?_
  rcases List.mem_append.1 hs with hs | hs
  · exact Nat.le_trans (hi s (Option.mem_toList.1 hs)) (by omega)
  · rw [List.mem_singleton.1 hs]
    exact extent_loop_le hcondition hround

end Stmt

/-- The first clause of a `for` loop takes no unit of the budget, so it may have
one node more than its expression. -/
theorem Stmt.Clause.depth_le {T : Token → Prop} {b : Nat} {s : Stmt}
    (h : s.Clause T b) : s.depth ≤ 5 * b + 1 := by
  unfold Stmt.depth
  cases h with
  | define h => exact extent_define_le fun e he => (h e he).depth_le
  | expression h =>
    rw [extent]
    exact Nat.succ_le_succ h.depth_le

/-- **The budget bounds the depth of a statement**, by induction on how it is
read: no statement has more nodes for its unit of the budget than an expression
has. -/
theorem Stmt.Derived.depth_le {T : Token → Prop} {b : Nat} {s : Stmt}
    (h : s.Derived T b) : s.depth ≤ 5 * b + 1 := by
  unfold Stmt.depth
  induction h with
  | define h => exact extent_define_le fun e he => (h e he).depth_le
  | @expression b span e h =>
    rw [extent]
    have h : e.extent 0 ≤ 5 * b := h.depth_le
    omega
  | @print b span e h =>
    rw [extent]
    have h : e.extent 0 ≤ 5 * b := h.depth_le
    omega
  | @branch b span c t e hc _ _ iht ihe =>
    have hc : c.extent 0 ≤ 5 * b + 1 := Nat.le_succ_of_le hc.depth_le
    exact Nat.le_trans (extent_branch_le hc iht ihe) (by omega)
  | @loop b span c body hc _ ihb =>
    have hc : c.extent 0 ≤ 5 * b + 1 := Nat.le_succ_of_le hc.depth_le
    exact Nat.le_trans (extent_loop_le hc ihb) (by omega)
  | @forLoop b span c body hi hc hu _ ihb =>
    have hloop := @extent_forLoop_le 0 (5 * b) span c body
      (fun s hs => (hi s hs).depth_le) (fun e he => (hc e he).depth_le)
      (fun e he => (hu e he).depth_le) ihb
    omega
  | block _ ih => exact Nat.le_trans (extent_block_le ih) (by omega)

/-! ## Height and depth

What remains between the two is the number of steps to the left. It is a
property of the tree and of nothing that is counted while it is read. -/

namespace Expr

/-- How many steps to left operands lead on from the root. -/
def leftSteps : Expr → Nat
  | binary _ l _ => l.leftSteps + 1
  | _ => 0

/-- **The longest spine of an expression**: the most steps to left operands that
follow each other. It is the part of a tree that the nesting budget does not
bound. -/
def spine : Expr → Nat
  | literal _ | reference _ => 0
  | assign _ e | grouping e | unary _ e => e.spine
  | binary _ l r => max (l.leftSteps + 1) (max l.spine r.spine)

/-- The spine at the root is one of those that the longest is chosen from. -/
theorem leftSteps_le_spine (e : Expr) : e.leftSteps ≤ e.spine := by
  cases e with
  | binary op l r => exact Nat.le_max_left _ _
  | _ => exact Nat.zero_le _

/-- **The height of an expression by its depth.** Each node that is counted has at
most `w` steps to left operands above it; at the root there are as many as its
own spine has. -/
theorem height_le_spine {w : Nat} (e : Expr) (h : e.spine ≤ w) :
    e.height + w ≤ (w + 1) * e.depth + e.leftSteps := by
  unfold height depth
  -- A node that is counted, above an expression with a spine of its own.
  have hnode (x : Expr) (hx : x.spine ≤ w)
      (ih : x.extent 1 + w ≤ (w + 1) * x.extent 0 + x.leftSteps) :
      x.extent 1 + 1 + w ≤ (w + 1) * (x.extent 0 + 1) := by
    have hsteps := x.leftSteps_le_spine
    rw [Nat.mul_add_one]
    omega
  induction e with
  | literal t =>
    show 1 + w ≤ (w + 1) * 1 + 0
    omega
  | reference name =>
    show 1 + w ≤ (w + 1) * 1 + 0
    omega
  | assign name e ih => exact hnode e h (ih h)
  | grouping e ih => exact hnode e h (ih h)
  | unary op e ih => exact hnode e h (ih h)
  | binary op l r ihl ihr =>
    obtain ⟨-, hlr⟩ := Nat.max_le.1 h
    obtain ⟨hl, hr⟩ := Nat.max_le.1 hlr
    have hleft := ihl hl
    have hright := hnode r hr (ihr hr)
    show max (l.extent 1 + 1) (r.extent 1 + 1) + w
      ≤ (w + 1) * max (l.extent 0) (r.extent 0 + 1) + (l.leftSteps + 1)
    rw [← Nat.mul_max_mul_left]
    omega

/-- **An expression is at most `w + 1` times as high as it is deep**, if no spine
has more than `w` steps. -/
theorem height_le_mul_depth {w : Nat} {e : Expr} (h : e.spine ≤ w) :
    e.height ≤ (w + 1) * e.depth := by
  have hle := height_le_spine e h
  have hsteps := e.leftSteps_le_spine
  omega

end Expr

namespace Stmt

variable {w a b c d : Nat}

/-- Bounds that are `w + 1` times as great carry over to a node above. This and
the next lemma are the arithmetic of going up one node. -/
theorem node_le (h : a ≤ (w + 1) * c) : a + 1 ≤ (w + 1) * (c + 1) := by
  rw [Nat.mul_add_one]
  omega

theorem max_le_mul (h : a ≤ (w + 1) * c) (k : b ≤ (w + 1) * d) :
    max a b ≤ (w + 1) * max c d := by
  rw [← Nat.mul_max_mul_left]
  omega

theorem extentAll_le_mul {body : List Stmt}
    (h : ∀ s ∈ body, s.extent 1 ≤ (w + 1) * s.extent 0) :
    extentAll 1 body ≤ (w + 1) * extentAll 0 body := by
  induction body with
  | nil =>
    rw [extentAll]
    exact Nat.zero_le _
  | cons s ss ih =>
    obtain ⟨hs, hss⟩ := List.forall_mem_cons.1 h
    rw [extentAll, extentAll]
    exact max_le_mul hs (ih hss)

/-- **A statement is at most `w + 1` times as high as it is deep**, if no spine
of its expressions has more than `w` steps. -/
theorem Every.height_le {s : Stmt} (h : s.Every (·.spine ≤ w)) :
    s.height ≤ (w + 1) * s.depth := by
  unfold Stmt.height Stmt.depth
  induction h with
  | @block span body _ ih =>
    rw [extent, extent]
    exact node_le (extentAll_le_mul ih)
  | expression h =>
    rw [extent, extent]
    exact node_le (Expr.height_le_mul_depth h)
  | @branch span c t e hc _ _ iht ihe =>
    have hc := Expr.height_le_mul_depth hc
    cases e with
    | none =>
      rw [extent, extent]
      exact node_le (max_le_mul hc iht)
    | some s =>
      rw [extent, extent]
      exact node_le (max_le_mul hc (max_le_mul iht (ihe s rfl)))
  | print h =>
    rw [extent, extent]
    exact node_le (Expr.height_le_mul_depth h)
  | @define span name initial h =>
    cases initial with
    | none =>
      rw [extent, extent]
      exact node_le (Nat.zero_le _)
    | some e =>
      rw [extent, extent]
      exact node_le (Expr.height_le_mul_depth (h e rfl))
  | loop hc _ ihb =>
    rw [extent, extent]
    exact node_le (max_le_mul (Expr.height_le_mul_depth hc) ihb)

end Stmt

/-- **The nesting budget bounds the height of trees without long spines.** Of all
tokens, whether they follow the grammar or not: a statement that is read from
them, and an expression, whose spines have at most `w` steps, has a height that
is bounded by `w` and the budget alone. -/
theorem nesting_bounds_height (w : Nat) (tokens : List Token) (finish : Token) :
    (∀ s ∈ (parse tokens).statements, s.Every (·.spine ≤ w) →
      s.height ≤ (w + 1) * (5 * nestingBudget + 1))
    ∧ ∀ e, (TokenStream.mk tokens finish).expression.outcome = .ok e →
      e.spine ≤ w → e.height ≤ (w + 1) * (5 * nestingBudget) := by
  constructor
  · intro s hs hspine
    have hderived : s.Derived (fun _ => True) nestingBudget :=
      derived_parse (fun _ _ => trivial) s hs
    calc s.height ≤ (w + 1) * s.depth := hspine.height_le
      _ ≤ (w + 1) * (5 * nestingBudget + 1) :=
        Nat.mul_le_mul_left _ hderived.depth_le
  · intro e he hspine
    have hderived := Rule.derived_expression (fun _ => True) nestingBudget
      ⟨tokens, finish⟩ (fun _ _ => trivial) e he
    calc e.height ≤ (w + 1) * e.depth := Expr.height_le_mul_depth hspine
      _ ≤ (w + 1) * (5 * nestingBudget) :=
        Nat.mul_le_mul_left _ hderived.depth_le

/-- A script with operators of three levels, each of which is the right operand
of the one before. -/
def shortSpines : SourceText := ⟨"s", "a + a * -a;"⟩

/-- Its expression. -/
def shortSpinesExpr : Expr :=
  let a (column : Nat) : Expr :=
    .reference ⟨.identifier, "a", ⟨"s", 1, column⟩⟩
  .binary ⟨⟨"s", 1, 3⟩, .add⟩ (a 1)
    (.binary ⟨⟨"s", 1, 7⟩, .multiply⟩ (a 5)
      (.unary ⟨⟨"s", 1, 9⟩, .negate⟩ (a 10)))

/-- The program is this one statement. -/
theorem statements_shortSpines : (parse shortSpines.scan.tokens).statements
    = [.expression ⟨"s", 1, 1⟩ shortSpinesExpr] := by
  cbv

theorem expression_shortSpines :
    (TokenStream.ofTokens shortSpines.scan.tokens).expression.outcome
      = .ok shortSpinesExpr := by
  cbv

/-- Its spines have one step, so the budget bounds its height, as a statement
and as an expression. With `w = 1` the bound is far from what this tree needs,
as it is the same for all trees with such spines. -/
theorem nesting_bounds_height_shortSpines :
    let s : Stmt := .expression ⟨"s", 1, 1⟩ shortSpinesExpr
    (parse shortSpines.scan.tokens).statements = [s]
    ∧ shortSpinesExpr.spine = 1
    ∧ s.height ≤ (1 + 1) * (5 * nestingBudget + 1)
    ∧ shortSpinesExpr.height ≤ (1 + 1) * (5 * nestingBudget) := by
  intro s
  have hspine : shortSpinesExpr.spine = 1 := by decide
  have hmem : s ∈ (parse shortSpines.scan.tokens).statements := by
    rw [statements_shortSpines]
    exact .head _
  exact ⟨statements_shortSpines, hspine,
    (nesting_bounds_height 1 _ default).1 s hmem (.expression hspine.le),
    (nesting_bounds_height 1 _ _).2 _ expression_shortSpines hspine.le⟩

/-! ## What nesting does not bound

One family of texts is enough: sums of ones. That they are scanned and read as
they look is followed from the characters to the tree, for any number of plus
signs. -/

/-- The characters `+1` so many times, and a semicolon. -/
def sumTail : Nat → List Char
  | 0 => [';']
  | n + 1 => '+' :: '1' :: sumTail n

/-- **The text `1+1+…+1;`** with so many plus signs. -/
def sumText (n : Nat) : SourceText := ⟨"sum", String.ofList ('1' :: sumTail n)⟩

/-- The kinds of the tokens of a sum: a number, and then plus signs and
numbers. -/
def sumKinds (n : Nat) : List TokenKind :=
  .number :: (List.replicate n [.punctuator .plus, .number]).flatten

/-- The kind of the token that a segment yields. -/
def Segment.tokenKind? (g : Segment) : Option TokenKind :=
  (g.token? "" .start).map Token.kind

/-- The kinds of the tokens of a text do not depend on where its segments are. -/
theorem kinds_locate (file : String) (p : Position) (gs : List Segment) :
    ((locate p gs).filterMap fun (q, g) => g.token? file q).map Token.kind
      = gs.filterMap Segment.tokenKind? := by
  induction gs generalizing p with
  | nil => rfl
  | cons g gs ih =>
    have ih := ih (p.after g.text)
    cases g with
    | blank | comment | unclosed | stray => exact ih
    | word | number | punctuator | string => exact congrArg (_ :: ·) ih

/-- A one is a number of its own, as no digit and no period comes behind it. -/
theorem next_one_sumTail (n : Nat) :
    Segment.next '1' (sumTail n) = (.number ['1'], sumTail n) := by
  rw [Segment.next_number rfl]
  cases n <;> rfl

/-- Each plus sign and each one is a token, by induction on their number. -/
theorem kinds_sumTail (n : Nat) :
    (segments (sumTail n)).filterMap Segment.tokenKind?
      = (List.replicate n [.punctuator .plus, .number]).flatten
        ++ [.punctuator .semicolon] := by
  induction n with
  | zero =>
    rw [sumTail, segments_cons, Segment.next_single? rfl, segments_nil]
    rfl
  | succ n ih =>
    rw [sumTail, segments_cons, Segment.next_single? rfl, segments_cons,
      next_one_sumTail, List.replicate_succ]
    exact congrArg (fun ks => .punctuator .plus :: .number :: ks) ih

/-- The tokens of a sum, without the end-of-file token. -/
theorem tokens_sumText (n : Nat) :
    ∃ ts semi z, (sumText n).scan.tokens = ts ++ [semi] ++ [z]
      ∧ ts.map Token.kind = sumKinds n ∧ semi.kind = .punctuator .semicolon
      ∧ z.isEnd = true := by
  have hsegments : (sumText n).segments
      = locate .start (segments ('1' :: sumTail n)) :=
    congrArg (fun cs => locate .start (segments cs)) String.toList_ofList
  have hkinds : ((sumText n).segments.filterMap fun (q, g) =>
      g.token? (sumText n).name q).map Token.kind
        = sumKinds n ++ [.punctuator .semicolon] := by
    rw [hsegments, kinds_locate, segments_cons, next_one_sumTail]
    exact congrArg (.number :: ·) (kinds_sumTail n)
  obtain ⟨ts, us, htokens, hts, hus⟩ := List.map_eq_append_iff.1 hkinds
  obtain ⟨semi, us, rfl, hsemi, hus⟩ := List.map_eq_cons_iff.1 hus
  obtain rfl := List.map_eq_nil_iff.1 hus
  exact ⟨ts, semi, _, congrArg (· ++ _) htokens, hts, hsemi, rfl⟩

/-- **A sum of ones has a node for each plus sign**, one below the other. Its
nesting is none, as no expression stands inside. -/
theorem derives_sum (n : Nat) {ts : List Token}
    (h : ts.map Token.kind = sumKinds n) :
    ∃ e, Derives (.binary .term) ts e 0 ∧ e.height = n + 1 := by
  induction n generalizing ts with
  | zero =>
    obtain ⟨t, us, rfl, ht, hus⟩ := List.map_eq_cons_iff.1 h
    obtain rfl := List.map_eq_nil_iff.1 hus
    exact ⟨.literal t,
      .operand (.operand (.primary (.literal (ht ▸ .number)))), rfl⟩
  | succ n ih =>
    have hsnoc : sumKinds (n + 1)
        = sumKinds n ++ [.punctuator .plus, .number] := by
      unfold sumKinds
      rw [List.replicate_succ', List.flatten_append]
      rfl
    rw [hsnoc] at h
    obtain ⟨us, vs, rfl, hus, hvs⟩ := List.map_eq_append_iff.1 h
    obtain ⟨e, hd, he⟩ := ih hus
    obtain ⟨p, vs, rfl, hp, hvs⟩ := List.map_eq_cons_iff.1 hvs
    obtain ⟨d, vs, rfl, hd', hvs⟩ := List.map_eq_cons_iff.1 hvs
    obtain rfl := List.map_eq_nil_iff.1 hvs
    have hone : Derives (.binary .factor) [d] (.literal d) 0 :=
      .operand (.primary (.literal (hd' ▸ .number)))
    refine ⟨_, .link hd hp rfl hone, ?_⟩
    show max (e.height + 1) (1 + 1) = n + 1 + 1
    omega

/-- No token of a sum is the end of the text. -/
theorem isEnd_of_sumKinds {n : Nat} {ts : List Token}
    (h : ts.map Token.kind = sumKinds n) : ∀ t ∈ ts, t.isEnd = false := by
  intro t ht
  have hkind : t.kind ∈ sumKinds n := h ▸ List.mem_map_of_mem ht
  have hne : t.kind ≠ .endOfFile := by
    intro heq
    rw [heq] at hkind
    rcases List.mem_cons.1 hkind with hkind | hkind
    · cases hkind
    · obtain ⟨ks, hks, hkind⟩ := List.mem_flatten.1 hkind
      rw [List.eq_of_mem_replicate hks] at hkind
      simp at hkind
  simpa [Token.isEnd] using hne

/-- **A sum is read as one statement** of any height. No fault is met, so the
budget was never an obstacle. -/
theorem exists_height (n : Nat) :
    ∃ span e, e.height = n + 1
      ∧ parse (sumText n).scan.tokens = ⟨[.expression span e], []⟩
      ∧ (TokenStream.ofTokens (sumText n).scan.tokens).expression.outcome
        = .ok e := by
  obtain ⟨ts, semi, z, htokens, hts, hsemi, hz⟩ := tokens_sumText n
  obtain ⟨e, hterm, hheight⟩ := derives_sum n hts
  have hd : Derives .expression ts e 1 :=
    .expression (.equality (.operand (.operand hterm)))
  have hend : ∀ t ∈ ts ++ [semi], t.isEnd = false := by
    intro t ht
    rcases List.mem_append.1 ht with ht | ht
    · exact isEnd_of_sumKinds hts t ht
    · rw [List.mem_singleton.1 ht, Token.isEnd, hsemi]
      rfl
  obtain ⟨t, us, rfl, -⟩ := hd.head
  have hsequence : Sequence (t :: us ++ [semi]) [.expression t.span e] 2 := by
    have h := Sequence.cons (.statement (.expression (.mk hd hsemi))) .nil
    rwa [List.append_nil] at h
  refine ⟨t.span, e, hheight, ?_, ?_⟩
  · rw [htokens, parse_eq_iff, ofTokens_append hend (List.cons_ne_nil z []),
      ofTokens_end hz, List.append_nil]
    exact ⟨2, by decide, hsequence⟩
  · have hreads : (Rule.expression nestingBudget).parser.Reads z
        (t :: us ++ [semi]) e [semi] :=
      (expression_exact nestingBudget).reads.2
        ⟨⟨t :: us, 1, rfl, hd, by decide⟩,
          Category.ends_of_closing hsemi (.inl rfl)⟩
    rw [htokens, ofTokens_append hend (List.cons_ne_nil z []), ofTokens_end hz,
      List.append_nil]
    exact congrArg Reply.outcome hreads

/-- **No bound on the height of trees exists**, neither for the statements of a
program nor for an expression that is read on its own. -/
theorem height_unbounded :
    (¬ ∃ bound, ∀ source : SourceText,
      ∀ s ∈ (parse source.scan.tokens).statements, s.height ≤ bound)
    ∧ ¬ ∃ bound, ∀ (source : SourceText) (e : Expr),
      (TokenStream.ofTokens source.scan.tokens).expression.outcome = .ok e →
        e.height ≤ bound := by
  constructor
  · rintro ⟨bound, h⟩
    obtain ⟨span, e, hheight, hparse, -⟩ := exists_height bound
    have hle := h (sumText bound) (.expression span e) (by rw [hparse]; simp)
    have hstmt : (Stmt.expression span e).height = e.height + 1 := by
      unfold Stmt.height
      rw [Stmt.extent]
      rfl
    omega
  · rintro ⟨bound, h⟩
    obtain ⟨span, e, hheight, -, hread⟩ := exists_height bound
    have hle := h (sumText bound) e hread
    omega

end TreeScript
