import TreeScript.Proofs.Parser.Congruence

/-!
# Scopes in the text of a program

What a name means can be read off the program without running it. Names are
defined by the statements of a list: the program itself or the body of a block.
At a node of the tree, the **scopes** are the lists it lies in, innermost first,
and each holds the names that the list defines in front of the statement the
node is part of. A name means its definition in the first scope that has one
(`Occurrence.depth?`).

A node is named by its **place**: the turns that lead to it from the program.

This reading needs that definitions stand in lists only, and are never the body
of a branch or a loop. Every program that is read has this form
(`wellPlaced_parse`).

Places are what ties this reading to a run. A lookup of a run is made at a node,
and the occurrence that the text has at this node says where it must end. The
functions of this module only look at the tree, and can be computed for any
program.
-/

namespace TreeScript

/-- **The names that an expression mentions**: those it reads and those it assigns
to. -/
def Expr.names : Expr → List String
  | assign name value => name.lexeme :: value.names
  | binary _ lhs rhs => lhs.names ++ rhs.names
  | grouping inner => inner.names
  | literal _ => []
  | unary _ operand => operand.names
  | reference name => [name.lexeme]

namespace Stmt

mutual

/-- **The names that a statement mentions**: those of its expressions, and those
it defines. -/
def names : Stmt → List String
  | block _ body => namesAll body
  | expression _ e => e.names
  | branch _ c t none => c.names ++ t.names
  | branch _ c t (some e) => c.names ++ (t.names ++ e.names)
  | print _ e => e.names
  | define _ name none => [name.lexeme]
  | define _ name (some e) => name.lexeme :: e.names
  | loop _ c body => c.names ++ body.names

/-- The names that several statements mention. -/
def namesAll : List Stmt → List String
  | [] => []
  | s :: ss => s.names ++ namesAll ss

end

/-- The name that a statement defines in the list it stands in. -/
def definedName? : Stmt → Option String
  | define _ name _ => some name.lexeme
  | _ => none

/-- The names that the statements of a list define in it. -/
def definedNames (body : List Stmt) : List String :=
  body.filterMap definedName?

/-- The first statement of a list adds its name, if it is a definition. -/
theorem definedNames_cons (s : Stmt) (body : List Stmt) :
    definedNames (s :: body) = s.definedName?.toList ++ definedNames body := by
  unfold definedNames
  rw [List.filterMap_cons]
  cases s.definedName? <;> rfl

theorem definedNames_append (body more : List Stmt) :
    definedNames (body ++ more) = definedNames body ++ definedNames more :=
  List.filterMap_append

/-- One more statement adds its name behind the others. -/
theorem definedNames_snoc (body : List Stmt) (s : Stmt) :
    definedNames (body ++ [s])
      = definedNames body ++ s.definedName?.toList := by
  rw [definedNames_append, definedNames_cons]
  exact congrArg _ (List.append_nil _)

/-! ## Where definitions stand

That a program which is read has the form needed here is a fact about the
parser. It is stated as what the rules say of the statements they build, and the
rest is the general argument for such facts (`Parser.StmtCongruence.Builds`). -/

/-- **Definitions stand in lists only**: the parts of a branch and the body of a
loop are other statements. Below blocks there are lists again, so that
definitions may stand at any depth. -/
inductive WellPlaced : Stmt → Prop
  | block {span : Span} {body : List Stmt} (body_placed : ∀ s ∈ body, WellPlaced s) :
      WellPlaced (.block span body)
  | expression {span : Span} {e : Expr} : WellPlaced (.expression span e)
  | branch {span : Span} {c : Expr} {thenStmt : Stmt} {elseStmt : Option Stmt}
      (then_placed : WellPlaced thenStmt)
      (then_name : thenStmt.definedName? = none)
      (else_placed : ∀ s ∈ elseStmt, WellPlaced s)
      (else_name : ∀ s ∈ elseStmt, s.definedName? = none) :
      WellPlaced (.branch span c thenStmt elseStmt)
  | print {span : Span} {e : Expr} : WellPlaced (.print span e)
  | define {span : Span} {name : Token} {initial : Option Expr} :
      WellPlaced (.define span name initial)
  | loop {span : Span} {c : Expr} {body : Stmt} (body_placed : WellPlaced body)
      (body_name : body.definedName? = none) : WellPlaced (.loop span c body)

/-- What can be the body of a branch or a loop: no definition. -/
def IsBody (s : Stmt) : Prop := s.WellPlaced ∧ s.definedName? = none

/-- The increment of a `for` loop makes its body a block. -/
theorem IsBody.withIncrement {body : Stmt} (h : body.IsBody)
    (increment : Option Expr) : (body.withIncrement increment).IsBody := by
  cases increment with
  | none => exact h
  | some e =>
    refine ⟨.block (List.forall_mem_cons.2 ⟨h.1, fun s hs => ?_⟩), rfl⟩
    rw [List.mem_singleton.1 hs]
    exact .expression

end Stmt

/-- A `for` loop is a block, and its body the body of a loop. -/
theorem ForClauses.isBody_loop {c : ForClauses}
    (h : ∀ s ∈ c.initial, s.WellPlaced) (span : Span) {body : Stmt}
    (hb : body.IsBody) : (c.loop span body).IsBody := by
  have hi := hb.withIncrement c.increment
  refine ⟨.block fun s hs => ?_, rfl⟩
  rcases List.mem_append.1 hs with hs | hs
  · exact h s (Option.mem_toList.1 hs)
  · rw [List.mem_singleton.1 hs]
    exact .loop hi.1 hi.2

/-- **What is known of where definitions stand.** A statement is never one itself,
while a declaration and the first clause of a `for` loop may be. Nothing is said
of expressions. -/
def Parser.Trees.placed : Trees where
  expr _ _ := True
  clause s _ := s.WellPlaced
  stmt s _ := s.IsBody
  decl s _ := s.WellPlaced

/-- The rules keep definitions in lists: the parts of a branch and the body of a
loop are read as statements, and the items of a block as declarations. -/
theorem Parser.builds_placed (T : Token → Prop) :
    (StmtCongruence.ensuring T).Builds fun _ => .placed where
  define _ _ _ _ := .define
  defineClause _ _ _ _ := .define
  expressionClause _ _ := .expression
  declaration h := h.1
  expression _ _ := ⟨.expression, rfl⟩
  print _ _ := ⟨.print, rfl⟩
  branch _ _ hs he :=
    have he := forall_mem_of_rel he
    ⟨.branch hs.1 hs.2 (fun s hmem => (he s hmem).1)
      (fun s hmem => (he s hmem).2), rfl⟩
  loop _ _ hs := ⟨.loop hs.1 hs.2, rfl⟩
  forLoop _ hi _ _ hs := ForClauses.isBody_loop (forall_mem_of_rel hi) _ hs
  block _ hbody := ⟨.block (forall_mem_of_forall₂ hbody), rfl⟩

namespace Rule

variable {T : Token → Prop}

/-- **A statement is never a definition**, whatever the budget, and the
definitions inside it stand in lists. -/
theorem isBody_statement (budget : Nat) :
    (Rule.statement budget).parser.Ensures T Stmt.IsBody :=
  ((Parser.builds_placed T).statement (fun _ _ _ e _ => ⟨e, trivial⟩) budget).mono
    fun _ ⟨_, h⟩ => h

/-- A declaration may be a definition, but in the statements inside it
definitions stand in lists. -/
theorem wellPlaced_declaration (budget : Nat) :
    (declaration (.expression budget) (.statement budget)).parser.Ensures T
      Stmt.WellPlaced :=
  ((Parser.builds_placed T).declaration_rel (fun _ _ _ e _ => ⟨e, trivial⟩)
    budget).mono fun _ ⟨_, h⟩ => h

end Rule

/-- **In a program that was read, definitions stand in lists only**, whether the
tokens followed the grammar or not. The declarations that were dropped are not
in the program, and what was read of them is lost with them. -/
theorem wellPlaced_parse (tokens : List Token) :
    ∀ s ∈ (parse tokens).statements, s.WellPlaced :=
  Parser.ensures_declarations (Rule.wellPlaced_declaration nestingBudget)
    (.ofTokens tokens) (fun _ _ => trivial) _ rfl

/-! ## Places

A turn names one part of a node. Statements and expressions have turns of one
kind, so a place leads through both. -/

/-- **One turn** on the way from a node of a tree to one of its parts. -/
inductive Turn where
  /-- To a statement of a list, by number. -/
  | item (i : Nat)
  /-- To the condition of a branch or a loop. -/
  | condition
  /-- To the statement that a branch executes if its condition holds. -/
  | thenStmt
  /-- To the statement that a branch executes otherwise. -/
  | elseStmt
  /-- To the body of a loop. -/
  | body
  /-- To the only expression of a statement, or the only operand. -/
  | value
  /-- To the left operand. -/
  | lhs
  /-- To the right operand. -/
  | rhs
deriving Repr, DecidableEq, Inhabited

/-- **The place of a node**: the turns that lead to it. -/
abbrev Place := List Turn

/-- The name that the node at a place of an expression reads or assigns to. -/
def Expr.nameAt? : Expr → Place → Option Token
  | reference name, [] => some name
  | assign name _, [] => some name
  | assign _ e, .value :: p => e.nameAt? p
  | grouping e, .value :: p => e.nameAt? p
  | unary _ e, .value :: p => e.nameAt? p
  | binary _ l _, .lhs :: p => l.nameAt? p
  | binary _ _ r, .rhs :: p => r.nameAt? p
  | _, _ => none

/-! ## Occurrences of names

Going down to a place, the scopes are collected: each block on the way adds one,
with the names defined in front of the item that the way goes through. -/

/-- **An occurrence of a name** that is read or assigned to. Nothing more is
needed to say which definition the name means. -/
structure Occurrence where
  /-- The name. -/
  name : Token
  /-- The lists that the occurrence lies in, innermost first, each with the
  names it defines in front of it. -/
  scopes : List (List String)
deriving Repr, DecidableEq

/-- **How many scopes lie between an occurrence and its definition.** An
occurrence that no scope has a definition for is unbound. -/
def Occurrence.depth? (o : Occurrence) : Option Nat :=
  o.scopes.findIdx? (·.contains o.name.lexeme)

/-- The occurrence at a place of an expression, in given scopes. -/
def Expr.occurrenceAt? (e : Expr) (scopes : List (List String)) (p : Place) :
    Option Occurrence :=
  (e.nameAt? p).map (⟨·, scopes⟩)

/-- **The occurrence at a place** of a statement, in given scopes. Only a block
adds a scope: the names that its list defines in front of the item. -/
def Stmt.occurrenceAt? :
    Stmt → List (List String) → Place → Option Occurrence
  | block _ body, scopes, .item i :: p =>
    body[i]?.bind
      (·.occurrenceAt? (definedNames (body.take i) :: scopes) p)
  | expression _ e, scopes, .value :: p => e.occurrenceAt? scopes p
  | branch _ c _ _, scopes, .condition :: p => c.occurrenceAt? scopes p
  | branch _ _ t _, scopes, .thenStmt :: p => t.occurrenceAt? scopes p
  | branch _ _ _ (some e), scopes, .elseStmt :: p => e.occurrenceAt? scopes p
  | print _ e, scopes, .value :: p => e.occurrenceAt? scopes p
  | define _ _ (some e), scopes, .value :: p => e.occurrenceAt? scopes p
  | loop _ c _, scopes, .condition :: p => c.occurrenceAt? scopes p
  | loop _ _ b, scopes, .body :: p => b.occurrenceAt? scopes p
  | _, _, _ => none
termination_by structural _ _ p => p

/-- The occurrence at a place of a list of statements that lies in the scopes
`outer`. -/
def Stmt.occurrenceIn? (body : List Stmt) (outer : List (List String)) :
    Place → Option Occurrence
  | .item i :: p =>
    body[i]?.bind
      (·.occurrenceAt? (definedNames (body.take i) :: outer) p)
  | _ => none

/-- A block is a list that lies in the scopes of the block. -/
theorem Stmt.occurrenceAt?_block (span : Span) (body : List Stmt)
    (scopes : List (List String)) (p : Place) :
    (block span body).occurrenceAt? scopes p
      = occurrenceIn? body scopes p := by
  match p with
  | [] => rfl
  | t :: p => cases t <;> rfl

/-- A statement of a list lies in the scope of those in front of it. -/
theorem Stmt.occurrenceIn?_append (front : List Stmt) (s : Stmt)
    (more : List Stmt) (outer : List (List String)) (p : Place) :
    occurrenceIn? (front ++ s :: more) outer (.item front.length :: p)
      = s.occurrenceAt? (definedNames front :: outer) p := by
  simp [occurrenceIn?]

-- The initial value of a definition does not see the name it defines.
example :
    let x : Token := ⟨.identifier, "x", .unknown⟩
    let inner : Stmt := .block .unknown
      [.define .unknown x (some (.reference x)),
        .expression .unknown (.reference x)]
    let program : List Stmt := [.define .unknown x none, inner]
    let depthAt? (p : Place) : Option Nat :=
      (Stmt.occurrenceIn? program [] p).bind Occurrence.depth?
    depthAt? [.item 1, .item 0, .value] = some 1
      ∧ depthAt? [.item 1, .item 1, .value] = some 0 := by
  decide

end TreeScript
