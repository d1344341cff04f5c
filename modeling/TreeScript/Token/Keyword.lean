/-!
# Keywords

The reserved words of the language. Some of them are reserved only: the grammar
uses `else`, `false`, `for`, `if`, `let`, `nil`, `print`, `true` and `while`.
-/

namespace TreeScript

/-- **A reserved word.** -/
inductive Keyword where
  | andKw
  | classKw
  | elseKw
  | falseKw
  | fnKw
  | forKw
  | funKw
  | ifKw
  | letKw
  | nilKw
  | orKw
  | printKw
  | returnKw
  | superKw
  | thisKw
  | trueKw
  | whileKw
deriving Repr, DecidableEq, Inhabited

namespace Keyword

/-- Every reserved word. -/
def all : List Keyword :=
  [.andKw, .classKw, .elseKw, .falseKw, .fnKw, .forKw, .funKw, .ifKw, .letKw,
    .nilKw, .orKw, .printKw, .returnKw, .superKw, .thisKw, .trueKw, .whileKw]

/-- How the word is spelled. -/
def text : Keyword → String
  | andKw => "and"
  | classKw => "class"
  | elseKw => "else"
  | falseKw => "false"
  | fnKw => "fn"
  | forKw => "for"
  | funKw => "fun"
  | ifKw => "if"
  | letKw => "let"
  | nilKw => "nil"
  | orKw => "or"
  | printKw => "print"
  | returnKw => "return"
  | superKw => "super"
  | thisKw => "this"
  | trueKw => "true"
  | whileKw => "while"

/-- The reserved word with a given spelling. -/
def ofText? (s : String) : Option Keyword :=
  all.find? (fun k => k.text = s)

/-- Whether the word begins a declaration or a statement, so that parsing can
resume in front of it after a malformed declaration. -/
def startsDeclaration : Keyword → Bool
  | classKw | funKw | letKw | forKw | ifKw | whileKw | printKw | returnKw => true
  | _ => false

/-- Whether the word is a literal by itself. -/
def isLiteral : Keyword → Bool
  | trueKw | falseKw | nilKw => true
  | _ => false

theorem mem_all (k : Keyword) : k ∈ all := by
  cases k <;> decide

end Keyword

end TreeScript
