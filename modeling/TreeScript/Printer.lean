import TreeScript.Config.Basic
import TreeScript.Diagnostic
import TreeScript.SourceText
import TreeScript.Style

/-!
# Showing diagnostics

A diagnostic is shown as its severity and its text on one line. If the source it
speaks about is at hand, the line follows with its number, and under it a caret
at the column of the fault. The printer also counts what it has shown.
-/

namespace TreeScript

/-- **A printer of diagnostics.** -/
structure Printer where
  /-- How diagnostics are shown. -/
  settings : DiagnosticSettings := {}
  /-- Whether the terminal can show colours at all. -/
  colourful : Bool
  /-- The source that lines are quoted from. -/
  source : Option SourceText := none
  /-- How many errors were shown. -/
  errors : Nat := 0
  /-- How many warnings were shown. -/
  warnings : Nat := 0
deriving Repr

/-- The style of a severity. -/
def Severity.style : Severity → Style
  | .warning => .boldYellow
  | .error | .fatal => .boldRed

namespace Printer

/-- Takes a source to quote from. -/
def withSource (p : Printer) (s : SourceText) : Printer :=
  { p with source := some s }

/-- Forgets the counts. -/
def reset (p : Printer) : Printer := { p with errors := 0, warnings := 0 }

/-- Counts a diagnostic. -/
def count (p : Printer) (d : Diagnostic) : Printer :=
  if d.isError then { p with errors := p.errors + 1 }
  else { p with warnings := p.warnings + 1 }

/-- A text in a style, unless colours are not wanted or not possible. -/
def paint (p : Printer) (s : Style) (text : String) : String :=
  s.paint (p.settings.color && p.colourful) text

/-- The line to quote for a place: it must be known and lie in the source at
hand. -/
def quotedLine? (p : Printer) (s : Span) : Option String := do
  let source ← p.source
  if p.settings.sourceContext && s.isKnown && source.name == s.file then
    source.line? s.line
  else none

/-- Blanks. -/
def blanks (n : Nat) : String := String.ofList (List.replicate n ' ')

/-- The quoted line with its number, and the caret under its column. -/
def context (p : Printer) (d : Diagnostic) (line : String) : String :=
  let number := toString d.span.line
  let bar := p.paint .boldBlue "|"
  p.paint .boldBlue number ++ " " ++ bar ++ " " ++ line ++ "\n"
    ++ blanks number.length ++ " " ++ bar ++ " "
    ++ blanks (d.span.column - 1) ++ p.paint d.severity.style "^" ++ "\n"

/-- **A diagnostic as it is shown.** -/
def render (p : Printer) (d : Diagnostic) : String :=
  p.paint d.severity.style d.severity.text ++ ": " ++ p.paint .bold d.text
    ++ "\n"
    ++ match p.quotedLine? d.span with
      | some line => p.context d line
      | none => ""

end Printer

end TreeScript
