import TreeScript.Span
import TreeScript.Token.Keyword
import TreeScript.Token.Punctuator

/-!
# Tokens

A token is a kind, the text it stands for and the place of its first character.
The text of a string token is its value, with the quotes gone and the escapes
decoded; the text of every other token is what stands in the source.
-/

namespace TreeScript

/-- **What sort of token** something is. -/
inductive TokenKind where
  /-- A reserved word. -/
  | keyword (k : Keyword)
  /-- A punctuator. -/
  | punctuator (p : Punctuator)
  /-- A name that is no reserved word. -/
  | identifier
  /-- A quoted text. -/
  | string
  /-- A decimal number. -/
  | number
  /-- The end of the text. -/
  | endOfFile
deriving Repr, DecidableEq, Inhabited

namespace TokenKind

/-- What a token listing calls the kind. -/
def name : TokenKind → String
  | keyword _ => "keyword"
  | punctuator p => p.name
  | identifier => "identifier"
  | string => "string"
  | number => "number"
  | endOfFile => "end of file"

/-- The spelling of the kinds that have only one, the name of the others. -/
def text : TokenKind → String
  | keyword k => k.text
  | punctuator p => p.text
  | k => k.name

/-- Whether a token of this kind is a literal. -/
def isLiteral : TokenKind → Bool
  | string | number => true
  | keyword k => k.isLiteral
  | _ => false

end TokenKind

/-- **A token**: its kind, its text and where it begins. -/
structure Token where
  /-- What sort of token it is. -/
  kind : TokenKind
  /-- The text it stands for. -/
  lexeme : String
  /-- Where it begins. -/
  span : Span
deriving Repr, DecidableEq, Inhabited

namespace Token

/-- The token that ends every token list. -/
def endOfFile (span : Span) : Token := ⟨.endOfFile, "", span⟩

/-- Whether the token is the end of the text. -/
def isEnd (t : Token) : Bool := t.kind == .endOfFile

/-- How a message names the token. -/
def quoted (t : Token) : String :=
  match t.kind with
  | .endOfFile => "end of file"
  | .string => "\"" ++ t.lexeme ++ "\""
  | _ => "`" ++ t.lexeme ++ "`"

/-- The token's line in a token listing. -/
def listing (t : Token) : String :=
  toString t.span.line ++ ":" ++ toString t.span.column ++ " "
    ++ t.kind.name ++ " " ++ t.lexeme

end Token

end TreeScript
