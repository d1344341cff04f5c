import TreeScript.Text.Invisible

/-!
# Quoted texts

A text in quotes, with escapes for the quote, the backslash and all characters
that cannot be seen. The log shows text values in this form.
-/

namespace TreeScript

/-- A character by its code point, in hexadecimal. -/
def codePointEscape (c : Char) : List Char :=
  '\\' :: 'u' :: '\x7b' :: Nat.toDigits 16 c.toNat ++ ['\x7d']

/-- **How a character stands in a quoted text.** -/
def quotedChar (c : Char) : List Char :=
  match c with
  | '\x00' => ['\\', '0']
  | '\t' => ['\\', 't']
  | '\r' => ['\\', 'r']
  | '\n' => ['\\', 'n']
  | '\\' => ['\\', '\\']
  | '"' => ['\\', '"']
  | c => if isInvisible c then codePointEscape c else [c]

/-- **A text in quotes.** -/
def quotedText (s : String) : String :=
  String.ofList ('"' :: s.toList.flatMap quotedChar ++ ['"'])

end TreeScript
