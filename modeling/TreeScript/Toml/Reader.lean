/-!
# Readers of characters

A reader takes characters from the front of a text and gives a value, or fails.
A reader that fails takes nothing, so that another one can be tried at the same
place.
-/

namespace TreeScript.Toml

/-- **A reader**: from a text to a value and the rest of the text. -/
abbrev Reader := StateT (List Char) Option

namespace Reader

variable {α : Type}

/-- Takes one character of a class. -/
def satisfying (p : Char → Bool) : Reader Char
  | c :: cs => if p c then some (c, cs) else none
  | [] => none

/-- Takes a given character. -/
def char (c : Char) : Reader Unit := do
  let _ ← satisfying (· == c)

/-- Takes a given text. -/
def word (s : String) : Reader Unit := s.toList.forM char

/-- Takes all characters of a class, as far as they go. -/
def run (p : Char → Bool) : Reader (List Char) :=
  fun cs => some (cs.takeWhile p, cs.dropWhile p)

/-- Takes all characters of a class, and at least one. -/
def run1 (p : Char → Bool) : Reader (List Char) := do
  return (← satisfying p) :: (← run p)

/-- Takes exactly so many characters of a class. -/
def exactly (p : Char → Bool) : Nat → Reader (List Char)
  | 0 => pure []
  | n + 1 => do return (← satisfying p) :: (← exactly p n)

/-- What a reader gives, or nothing if it fails. -/
def optional (r : Reader α) : Reader (Option α) :=
  (some <$> r) <|> pure none

/-- Reads at most `n` times, as long as the reader succeeds. -/
def upTo (r : Reader α) : Nat → Reader (List α)
  | 0 => pure []
  | n + 1 => (do return (← r) :: (← upTo r n)) <|> pure []

/-- **Reads as long as the reader succeeds.** The reader has to take a
character each time, so the length of the text bounds their number. -/
def many (r : Reader α) : Reader (List α) := fun cs => upTo r cs.length cs

end Reader

end TreeScript.Toml
