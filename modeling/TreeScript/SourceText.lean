import TreeScript.Span

/-!
# Source texts

A source text is a named text. Diagnostics quote single lines of it, so the
module says what the lines of a text are: each line feed ends a line, a
carriage return directly in front of that line feed belongs to the line end, and
a text that ends in a line feed has no further empty line.
-/

namespace TreeScript

/-- **A named text to scan**: a script, or one line of an interactive session. -/
structure SourceText where
  /-- The name that places in this text carry. -/
  name : String
  /-- The text itself. -/
  text : String
deriving Repr, DecidableEq, Inhabited

namespace SourceText

/-- The place of a position in this text. -/
def spanAt (s : SourceText) (p : Position) : Span :=
  Span.ofPosition s.name p

/-- A line body without the carriage return in front of its line feed. -/
def dropReturn (cs : List Char) : List Char :=
  if cs.getLast? = some '\r' then cs.dropLast else cs

/-- What stands behind the first line feed is shorter than the text. -/
theorem length_behind_newline {cs rest : List Char} {c : Char}
    (h : cs.dropWhile (· ≠ '\n') = c :: rest) : rest.length < cs.length := by
  have hle : (cs.dropWhile (· ≠ '\n')).length ≤ cs.length :=
    (List.dropWhile_suffix _).length_le
  rw [h, List.length_cons] at hle
  exact hle

/-- **The lines of a text**, without their line ends. -/
def linesOf (cs : List Char) : List (List Char) :=
  match cs with
  | [] => []
  | c :: cs' =>
    match _h : (c :: cs').dropWhile (· ≠ '\n') with
    | [] => [c :: cs']
    | _ :: rest =>
      dropReturn ((c :: cs').takeWhile (· ≠ '\n')) :: linesOf rest
termination_by cs.length
decreasing_by exact length_behind_newline _h

/-- The lines of the text, without their line ends. -/
def lines (s : SourceText) : List String :=
  (linesOf s.text.toList).map String.ofList

/-- The line of a given number, counted from one. -/
def line? (s : SourceText) : Nat → Option String
  | 0 => none
  | n + 1 => s.lines[n]?

end SourceText

end TreeScript
