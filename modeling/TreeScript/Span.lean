/-!
# Places in a source text

A `Position` is a line and a column, a `Span` is a position together with the
name of the file it lies in. Both count from one, and columns count characters,
so that the position after a text is found by walking over its characters
(`Position.after`): a line feed starts a new line, every other character moves
one column to the right.

A span whose line is `0` stands for a place that is not known. Spans are
ordered by file, then by line, then by column.
-/

namespace TreeScript

/-- **A place in a text**, by line and column. -/
structure Position where
  /-- The line, counted from one. -/
  line : Nat
  /-- The column, counted from one, in characters. -/
  column : Nat
deriving Repr, DecidableEq, Inhabited

namespace Position

/-- Where every text starts. -/
def start : Position := ⟨1, 1⟩

/-- The position behind a character: a line feed starts the next line, any
other character takes one column. -/
def step (p : Position) (c : Char) : Position :=
  if c = '\n' then ⟨p.line + 1, 1⟩ else ⟨p.line, p.column + 1⟩

/-- The position behind a whole text. -/
def after (p : Position) (cs : List Char) : Position :=
  cs.foldl step p

@[simp] theorem after_nil (p : Position) : p.after [] = p := rfl

@[simp] theorem after_cons (p : Position) (c : Char) (cs : List Char) :
    p.after (c :: cs) = (p.step c).after cs := rfl

theorem after_append (p : Position) (cs ds : List Char) :
    p.after (cs ++ ds) = (p.after cs).after ds :=
  List.foldl_append

end Position

/-- **A place in a file.** Line `0` means that the place is not known. -/
structure Span where
  /-- The name of the file. -/
  file : String
  /-- The line, counted from one, or `0`. -/
  line : Nat
  /-- The column, counted from one, in characters. -/
  column : Nat
deriving Repr, DecidableEq, Inhabited

namespace Span

/-- The place of something that has no place. -/
def unknown : Span := ⟨"unknown", 0, 0⟩

/-- Whether the place is known. -/
def isKnown (s : Span) : Bool := s.line != 0

/-- The position of the place inside its file. -/
def position (s : Span) : Position := ⟨s.line, s.column⟩

/-- The place of a position in a file. -/
def ofPosition (file : String) (p : Position) : Span :=
  ⟨file, p.line, p.column⟩

/-- How a place is written: `file:line:column`. -/
def text (s : Span) : String :=
  s.file ++ ":" ++ toString s.line ++ ":" ++ toString s.column

/-- Places are ordered by file, then by line, then by column. Files are
ordered by their code points. -/
def order (a b : Span) : Ordering :=
  (compare a.file b.file).then
    ((compare a.line b.line).then (compare a.column b.column))

end Span

/-- A value together with the place it was read from. -/
structure Located (α : Type) where
  /-- The place. -/
  span : Span
  /-- The value found there. -/
  value : α
deriving Repr, DecidableEq

end TreeScript
