import TreeScript.SourceText
import TreeScript.Diagnostic
import TreeScript.Token.Segment

/-!
# Scanning

Each segment of a source text yields at most one token and any number of
lexical errors (`Segment.token?`, `Segment.errors`). Scanning a text collects
both, in the order of the segments, and puts the end-of-file token behind the
last token (`SourceText.scan`).

A `Lexer` hands the same tokens out one at a time and keeps the errors met so
far. Calling it until there are no more tokens collects both again
(`Lexer.collectAll`).
-/

namespace TreeScript

/-! ## Lexical errors -/

/-- **What can be wrong with the characters of a text.** -/
inductive LexicalFault where
  /-- A character that begins no token. -/
  | unexpectedCharacter (c : Char)
  /-- A string without closing quote. -/
  | unterminatedString
  /-- An escape that the language does not know. -/
  | invalidEscape (c : Char)
deriving Repr, DecidableEq, Inhabited

namespace LexicalFault

/-- The code of the fault. -/
def code : LexicalFault → String
  | unexpectedCharacter _ => "E001"
  | unterminatedString => "E002"
  | invalidEscape _ => "E003"

/-- An unknown escape is kept as it stands and only warned about. -/
def severity : LexicalFault → Severity
  | invalidEscape _ => .warning
  | _ => .error

/-- What the user is told. -/
def message : LexicalFault → String
  | unexpectedCharacter c => "unexpected character `" ++ c.toString ++ "`"
  | unterminatedString => "unterminated string"
  | invalidEscape c =>
    "invalid escape sequence `\\" ++ c.toString
      ++ "`, only `\\\"`, `\\\\`, `\\n`, `\\r` and `\\t` are allowed"

end LexicalFault

/-- A lexical fault and its place. -/
structure LexicalError where
  /-- Where the fault lies. -/
  span : Span
  /-- What is wrong there. -/
  fault : LexicalFault
deriving Repr, DecidableEq, Inhabited

/-- The diagnostic of a lexical error. -/
def LexicalError.diagnostic (e : LexicalError) : Diagnostic where
  kind := .lexical
  severity := e.fault.severity
  span := e.span
  message := e.fault.message
  code := some e.fault.code

/-! ## What a segment yields -/

/-- The kind of a word: reserved, or a name. -/
def wordKind (cs : List Char) : TokenKind :=
  match Keyword.ofText? (String.ofList cs) with
  | some k => .keyword k
  | none => .identifier

/-- The errors of the units of a string that begins at `p`: an unknown escape
is reported at the character behind its backslash. -/
def unitErrors (file : String) (p : Position) :
    List StringUnit → List LexicalError
  | [] => []
  | .plain c :: us => unitErrors file (p.step c) us
  | .escape c :: us =>
    let q := p.step '\\'
    match StringUnit.escaped? c with
    | some _ => unitErrors file (q.step c) us
    | none =>
      ⟨Span.ofPosition file q, .invalidEscape c⟩
        :: unitErrors file (q.step c) us

namespace Segment

/-- The token that a segment yields, if it yields one. -/
def token? (file : String) (p : Position) : Segment → Option Token
  | word cs => some ⟨wordKind cs, String.ofList cs, Span.ofPosition file p⟩
  | number cs => some ⟨.number, String.ofList cs, Span.ofPosition file p⟩
  | punctuator m => some ⟨.punctuator m, m.text, Span.ofPosition file p⟩
  | string us =>
    some ⟨.string, String.ofList (us.flatMap StringUnit.decoded),
      Span.ofPosition file p⟩
  | blank _ | comment _ | unclosed _ _ | stray _ => none

/-- The errors that a segment yields. A string without closing quote is
reported at its opening quote, after the errors of its units. -/
def errors (file : String) (p : Position) : Segment → List LexicalError
  | string us => unitErrors file (p.step '"') us
  | unclosed us _ =>
    unitErrors file (p.step '"') us
      ++ [⟨Span.ofPosition file p, .unterminatedString⟩]
  | stray c => [⟨Span.ofPosition file p, .unexpectedCharacter c⟩]
  | blank _ | comment _ | word _ | number _ | punctuator _ => []

end Segment

/-! ## Scanning a text -/

/-- What scanning a text gives. -/
structure Scan where
  /-- The tokens, with the end-of-file token in last place. -/
  tokens : List Token
  /-- The lexical errors, in the order of the text. -/
  errors : List LexicalError
deriving Repr, DecidableEq

namespace SourceText

/-- The segments of a text and where each begins. -/
def segments (s : SourceText) : List (Position × Segment) :=
  locate .start (TreeScript.segments s.text.toList)

/-- The position behind the last character. -/
def finish (s : SourceText) : Position :=
  Position.start.after s.text.toList

/-- **The tokens and lexical errors of a text.** -/
def scan (s : SourceText) : Scan where
  tokens :=
    s.segments.filterMap (fun (p, g) => g.token? s.name p)
      ++ [Token.endOfFile (s.spanAt s.finish)]
  errors := s.segments.flatMap (fun (p, g) => g.errors s.name p)

end SourceText

/-! ## One token at a time -/

/-- **A scan in progress.** -/
structure Lexer where
  /-- The name of the text. -/
  file : String
  /-- The segments that have not been read. -/
  pending : List (Position × Segment)
  /-- Where the text ends. -/
  finish : Position
  /-- The errors met so far. -/
  errors : List LexicalError
  /-- Whether the end-of-file token has been handed out. -/
  ended : Bool
deriving Repr

namespace Lexer

/-- A lexer at the start of a text. -/
def ofSource (s : SourceText) : Lexer :=
  ⟨s.name, s.segments, s.finish, [], false⟩

/-- Reads segments up to the first one that yields a token: the errors on the
way, the token, and the segments behind it. -/
def advance (file : String) :
    List (Position × Segment) →
      List LexicalError × Option (Token × List (Position × Segment))
  | [] => ([], none)
  | (p, g) :: rest =>
    match g.token? file p with
    | some t => (g.errors file p, some (t, rest))
    | none =>
      let r := advance file rest
      (g.errors file p ++ r.1, r.2)

/-- **The next token.** Behind the last token comes the end-of-file token, once,
and then nothing. -/
def next (l : Lexer) : Option Token × Lexer :=
  match advance l.file l.pending with
  | (es, some (t, rest)) =>
    (some t, { l with pending := rest, errors := l.errors ++ es })
  | (es, none) =>
    let stopped :=
      { l with pending := [], errors := l.errors ++ es, ended := true }
    if l.ended then (none, stopped)
    else (some (Token.endOfFile (Span.ofPosition l.file l.finish)), stopped)

/-- How many calls can still give a token: at most one for each segment ahead,
and one for the end of the text. -/
def left (l : Lexer) : Nat := l.pending.length + if l.ended then 0 else 1

theorem length_of_advance {file : String} {gs rest : List (Position × Segment)}
    {t : Token} (h : (advance file gs).2 = some (t, rest)) :
    rest.length < gs.length := by
  induction gs with
  | nil => cases h
  | cons pg gs ih =>
    unfold advance at h
    split at h
    · cases h
      exact Nat.lt_succ_self _
    · exact Nat.lt_succ_of_lt (ih h)

/-- A call that gives a token leaves fewer of them. -/
theorem left_next {l l' : Lexer} {t : Token} (h : l.next = (some t, l')) :
    l'.left < l.left := by
  unfold next at h
  split at h
  · rename_i hadvance
    cases h
    exact Nat.add_lt_add_right (length_of_advance (congrArg Prod.snd hadvance)) _
  · split at h <;> cases h
    rename_i hended
    simp [left, hended]

/-- **All that is left of a scan**: calls for a token until there is none. -/
def collectAll (l : Lexer) : Scan :=
  match _h : l.next with
  | (some t, l') =>
    let rest := l'.collectAll
    ⟨t :: rest.tokens, rest.errors⟩
  | (none, l') => ⟨[], l'.errors⟩
termination_by l.left
decreasing_by exact left_next _h

end Lexer

end TreeScript
