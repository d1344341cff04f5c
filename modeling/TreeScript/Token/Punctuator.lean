/-!
# Punctuators

Brackets, separators and operators. Each has a spelling of one or two
characters and a name used in token listings.
-/

namespace TreeScript

/-- **A punctuation mark or an operator.** -/
inductive Punctuator where
  | leftParen
  | rightParen
  | leftBrace
  | rightBrace
  | comma
  | period
  | minus
  | plus
  | semicolon
  | slash
  | asterisk
  | bang
  | bangEqual
  | equal
  | equalEqual
  | greater
  | greaterEqual
  | less
  | lessEqual
deriving Repr, DecidableEq, Inhabited

namespace Punctuator

/-- Every punctuator. -/
def all : List Punctuator :=
  [.leftParen, .rightParen, .leftBrace, .rightBrace, .comma, .period, .minus,
    .plus, .semicolon, .slash, .asterisk, .bang, .bangEqual, .equal,
    .equalEqual, .greater, .greaterEqual, .less, .lessEqual]

/-- How the punctuator is spelled. -/
def text : Punctuator → String
  | leftParen => "("
  | rightParen => ")"
  | leftBrace => "\x7b"
  | rightBrace => "\x7d"
  | comma => ","
  | period => "."
  | minus => "-"
  | plus => "+"
  | semicolon => ";"
  | slash => "/"
  | asterisk => "*"
  | bang => "!"
  | bangEqual => "!="
  | equal => "="
  | equalEqual => "=="
  | greater => ">"
  | greaterEqual => ">="
  | less => "<"
  | lessEqual => "<="

/-- What a token listing calls the punctuator. -/
def name : Punctuator → String
  | leftParen => "open parenthesis"
  | rightParen => "close parenthesis"
  | leftBrace => "open curly bracket"
  | rightBrace => "close curly bracket"
  | comma => "comma"
  | period => "period"
  | minus => "minus"
  | plus => "plus"
  | semicolon => "semicolon"
  | slash => "slash"
  | asterisk => "asterisk"
  | bang => "not"
  | bangEqual => "not-equals"
  | equal => "assignment"
  | equalEqual => "equals"
  | greater => "greater-than"
  | greaterEqual => "greater-than-or-equal"
  | less => "less-than"
  | lessEqual => "less-than-or-equal"

/-- The punctuator with a given spelling. -/
def ofText? (s : String) : Option Punctuator :=
  all.find? (fun p => p.text = s)

/-- The punctuators that are spelled with one character and that no other
punctuator extends. The slash is left out: it may begin a comment. -/
def single? : Char → Option Punctuator
  | '(' => some leftParen
  | ')' => some rightParen
  | '\x7b' => some leftBrace
  | '\x7d' => some rightBrace
  | ',' => some comma
  | '.' => some period
  | '-' => some minus
  | '+' => some plus
  | ';' => some semicolon
  | '*' => some asterisk
  | _ => none

/-- The characters that are a punctuator alone and another one with an equals
sign behind them. -/
def withEqual? : Char → Option (Punctuator × Punctuator)
  | '!' => some (bang, bangEqual)
  | '=' => some (equal, equalEqual)
  | '<' => some (less, lessEqual)
  | '>' => some (greater, greaterEqual)
  | _ => none

theorem mem_all (p : Punctuator) : p ∈ all := by
  cases p <;> decide

theorem text_of_single? {c : Char} {p : Punctuator} (h : single? c = some p) :
    p.text.toList = [c] := by
  unfold single? at h
  split at h <;> simp_all <;> subst h <;> decide

theorem text_of_withEqual? {c : Char} {p q : Punctuator}
    (h : withEqual? c = some (p, q)) :
    p.text.toList = [c] ∧ q.text.toList = [c, '='] := by
  unfold withEqual? at h
  split at h <;> simp_all <;> obtain ⟨rfl, rfl⟩ := h <;> decide

end Punctuator

end TreeScript
