import TreeScript.Toml.Reader

/-!
# Blanks, comments and strings

The characters of a configuration text, the places where blanks and comments may
stand, and the four kinds of strings: with or without escapes, on one line or on
several.
-/

namespace TreeScript.Toml

/-! ## Blanks and comments -/

/-- A blank inside a line. -/
def isSpace (c : Char) : Bool := c == ' ' || c == '\t'

/-- A character that may stand on a line: a tab, or anything but a control
character. -/
def isLineChar (c : Char) : Bool :=
  c == '\t' || (0x20 ≤ c.toNat && c.toNat != 0x7f)

namespace Reader

/-- Blanks inside a line. -/
def spaces : Reader Unit := do
  let _ ← run isSpace

/-- The end of a line: a line feed, with or without a carriage return in
front. -/
def newline : Reader Unit := char '\n' <|> word "\r\n"

/-- A comment, up to the end of its line. -/
def comment : Reader Unit := do
  char '#'
  let _ ← run isLineChar

/-- The end of the text. -/
def finish : Reader Unit
  | [] => some ((), [])
  | _ => none

/-- What may follow on the line of an entry: blanks and a comment. -/
def lineEnd : Reader Unit := do
  spaces
  let _ ← optional comment
  newline <|> finish

/-- Blanks, comments and line ends between the parts of an array. -/
def filler : Reader Unit := do
  let _ ← many ((do let _ ← run1 isSpace) <|> newline <|> comment)

end Reader

/-! ## Strings -/

/-- The character that a one-letter escape stands for. -/
def escaped? : Char → Option Char
  | 'b' => some '\x08'
  | 't' => some '\t'
  | 'n' => some '\n'
  | 'f' => some '\x0c'
  | 'r' => some '\r'
  | '"' => some '"'
  | '\\' => some '\\'
  | _ => none

/-- The value of a hexadecimal digit. -/
def hexValue? (c : Char) : Option Nat :=
  if c.isDigit then some (c.toNat - '0'.toNat)
  else if 'a' ≤ c ∧ c ≤ 'f' then some (c.toNat - 'a'.toNat + 10)
  else if 'A' ≤ c ∧ c ≤ 'F' then some (c.toNat - 'A'.toNat + 10)
  else none

/-- The character with a code point given in hexadecimal. -/
def codePoint? (ds : List Char) : Option Char := do
  let n ← ds.foldlM (fun n c => (hexValue? c).map (16 * n + ·)) 0
  if n.isValidChar then some (Char.ofNat n) else none

/-- A decoded text and what stands behind it. -/
abbrev Decoded := Option (List Char × List Char)

/-- Puts a character in front of a decoded text. -/
def push (c : Option Char) (d : Decoded) : Decoded :=
  match c, d with
  | some c, some (s, rest) => some (c :: s, rest)
  | _, _ => none

/-- The text behind an opening double quote, on one line. -/
def basicBody : List Char → Decoded
  | [] => none
  | '"' :: cs => some ([], cs)
  | '\\' :: 'u' :: a :: b :: c :: d :: cs =>
    push (codePoint? [a, b, c, d]) (basicBody cs)
  | '\\' :: 'U' :: a :: b :: c :: d :: e :: f :: g :: h :: cs =>
    push (codePoint? [a, b, c, d, e, f, g, h]) (basicBody cs)
  | '\\' :: c :: cs => push (escaped? c) (basicBody cs)
  | c :: cs =>
    if c != '\\' && isLineChar c then push (some c) (basicBody cs) else none

/-- The text behind an opening single quote, on one line. -/
def literalBody : List Char → Decoded
  | [] => none
  | '\'' :: cs => some ([], cs)
  | c :: cs => if isLineChar c then push (some c) (literalBody cs) else none

/-- What stands behind the three quotes that close a string on several lines: up
to two more quotes still belong to the string. -/
def closing (quote : Char) : List Char → List Char × List Char
  | c :: d :: cs =>
    if c = quote ∧ d = quote then ([c, d], cs)
    else if c = quote then ([c], d :: cs)
    else ([], c :: d :: cs)
  | [c] => if c = quote then ([c], []) else ([], [c])
  | [] => ([], [])

/-- Whether nothing but blanks is left on the line. -/
def atLineEnd (cs : List Char) : Bool :=
  match cs.dropWhile isSpace with
  | '\n' :: _ => true
  | '\r' :: '\n' :: _ => true
  | _ => false

/-- The text behind three double quotes. A backslash at the end of a line takes
all blanks and line ends behind it away: `skip` tells that this is going on. -/
def multiBasicBody (skip : Bool) : List Char → Decoded
  | [] => none
  | '"' :: '"' :: '"' :: cs => some (closing '"' cs)
  | '\r' :: '\n' :: cs =>
    if skip then multiBasicBody true cs
    else push (some '\n') (multiBasicBody false cs)
  | '\\' :: 'u' :: a :: b :: c :: d :: cs =>
    push (codePoint? [a, b, c, d]) (multiBasicBody false cs)
  | '\\' :: 'U' :: a :: b :: c :: d :: e :: f :: g :: h :: cs =>
    push (codePoint? [a, b, c, d, e, f, g, h]) (multiBasicBody false cs)
  | '\\' :: c :: cs =>
    if atLineEnd (c :: cs) then multiBasicBody true (c :: cs)
    else push (escaped? c) (multiBasicBody false cs)
  | c :: cs =>
    if skip && (isSpace c || c == '\n') then multiBasicBody true cs
    else if c == '\n' || (c != '\\' && isLineChar c) then
      push (some c) (multiBasicBody false cs)
    else none

/-- The text behind three single quotes. -/
def multiLiteralBody : List Char → Decoded
  | [] => none
  | '\'' :: '\'' :: '\'' :: cs => some (closing '\'' cs)
  | '\r' :: '\n' :: cs => push (some '\n') (multiLiteralBody cs)
  | c :: cs =>
    if c == '\n' || isLineChar c then push (some c) (multiLiteralBody cs)
    else none

namespace Reader

/-- A decoded text as a string. -/
def decoded (body : List Char → Decoded) : Reader String :=
  fun cs => (body cs).map fun (s, rest) => (String.ofList s, rest)

/-- A string on one line. -/
def lineString : Reader String :=
  (do char '"'; decoded basicBody) <|> (do char '\''; decoded literalBody)

/-- A string on several lines. A line end right behind the opening quotes does
not belong to it. -/
def multilineString : Reader String :=
  (do
    word "\"\"\""
    let _ ← optional newline
    decoded (multiBasicBody false))
  <|> (do
    word "'''"
    let _ ← optional newline
    decoded multiLiteralBody)

end Reader

end TreeScript.Toml
