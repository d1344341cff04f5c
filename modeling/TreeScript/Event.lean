import TreeScript.Log
import TreeScript.RuntimeError
import TreeScript.SourceText
import TreeScript.Parser.Error

/-!
# Events

What a run or a session lets the outside know, in order: notes for the log,
diagnostics for the user, the lines that the script prints, and the prompts of an
interactive session. Notes are kept as data, their wording is a function of the
data (`Note.message`).
-/

namespace TreeScript

/-- **How a run ends.** -/
inductive Outcome where
  /-- Every statement was executed. -/
  | completed
  /-- The source text has lexical or grammar errors. -/
  | staticErrors
  /-- The source text has no such errors, but a runtime error stopped it. -/
  | runtimeError
deriving Repr, DecidableEq, Inhabited

namespace Outcome

/-- How the log names the outcome. -/
def label : Outcome → String
  | completed => "Completed"
  | staticErrors => "StaticErrors"
  | runtimeError => "RuntimeError"

/-- The exit code of a program that ends this way. -/
def exitCode : Outcome → Nat
  | completed => 0
  | staticErrors => 65
  | runtimeError => 70

end Outcome

/-- **A note for the log.** -/
inductive Note where
  /-- A text was scanned. -/
  | scanned (tokens errors : Nat) (file : String)
  /-- A malformed declaration was dropped. -/
  | dropped (e : ParseError)
  /-- A text was parsed. -/
  | parsed (statements errors : Nat)
  /-- A text with errors is about to be executed. -/
  | proceeding (errors : Nat) (file : String)
  /-- Statements are about to be executed. -/
  | interpreting (statements : Nat)
  /-- A name was defined. -/
  | defined (name : String) (value : Value)
  /-- A runtime error was met. -/
  | failed (e : RuntimeError)
  /-- A run has ended. -/
  | finished (file : String) (outcome : Outcome)
  /-- A diagnostic is about to be shown. -/
  | reporting (d : Diagnostic)
  /-- An interactive session has no more input. -/
  | inputEnded
  /-- A printed line could not be written. -/
  | unwritable (reason : String)
deriving Repr

namespace Note

/-- How serious the note is. -/
def level : Note → Level
  | failed _ | unwritable _ => .error
  | dropped _ | proceeding _ _ => .warn
  | defined _ _ => .trace
  | scanned _ _ _ | parsed _ _ | interpreting _ | finished _ _ | reporting _
  | inputEnded => .debug

/-- What the note says. -/
def message : Note → String
  | scanned tokens errors file =>
    "Scanned " ++ toString tokens ++ " tokens with " ++ toString errors
      ++ " lexical errors from " ++ file
  | dropped e => "Dropping declaration: " ++ e.message
  | parsed statements errors =>
    "Parsed " ++ toString statements ++ " statements with " ++ toString errors
      ++ " syntax errors"
  | proceeding errors file =>
    toString errors ++ " static errors in " ++ file
      ++ ", running the remaining statements"
  | interpreting statements =>
    "Interpreting " ++ toString statements ++ " statements"
  | defined name value => "Defining `" ++ name ++ "` as " ++ value.logged
  | failed e => "Runtime error at " ++ e.span.text ++ ": " ++ e.fault.message
  | finished file outcome => "Finished " ++ file ++ " with " ++ outcome.label
  | reporting d =>
    "Reporting " ++ d.severity.label ++ " " ++ d.kind.label ++ " at "
      ++ d.span.text
  | inputEnded => "End of input, leaving the REPL"
  | unwritable reason => "Failed to write to standard output: " ++ reason

/-- The record of the note. -/
def record (n : Note) : LogRecord := ⟨n.level, none, n.message⟩

end Note

/-- **Something that the outside is let known.** -/
inductive Event where
  /-- A note goes to the log. -/
  | noted (n : Note)
  /-- The user is told of a fault. -/
  | reported (d : Diagnostic)
  /-- The script prints a line. -/
  | printed (line : String)
  /-- The user is asked for a line. -/
  | prompted
  /-- Diagnostics speak about this source from here on. -/
  | opened (s : SourceText)
  /-- A line of a session is done, and its faults count no longer. -/
  | settled
deriving Repr

namespace Event

/-- The line that is printed, if the event prints one. -/
def line? : Event → Option String
  | printed line => some line
  | _ => none

/-- The diagnostic that is reported, if the event reports one. -/
def diagnostic? : Event → Option Diagnostic
  | reported d => some d
  | _ => none

/-- The note that is taken, if the event is one. -/
def note? : Event → Option Note
  | noted n => some n
  | _ => none

/-- Whether the event reports an error. -/
def isError : Event → Bool
  | reported d => d.isError
  | _ => false

end Event

end TreeScript
