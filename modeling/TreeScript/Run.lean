import TreeScript.Exec
import TreeScript.Parser.Stmt
import TreeScript.Token.Scan

/-!
# Running source texts

A source text is scanned, parsed and executed against an environment, which it
may change. Errors of the first two stages do not keep the declarations that
follow the grammar from being executed.

The events of a run come in the order of the stages: those of the scan, those of
the parse, those of the execution.
-/

namespace TreeScript

/-- **A source text that has been read**: its tokens and statements, and the
events of reading them. -/
structure Reading where
  /-- The tokens. -/
  tokens : List Token
  /-- The declarations that follow the grammar. -/
  statements : List Stmt
  /-- What the outside was let known. -/
  events : List Event
deriving Repr

/-- The events of a scan: a note, then a diagnostic for each error. -/
def Scan.events (scan : Scan) (file : String) : List Event :=
  .noted (.scanned scan.tokens.length scan.errors.length file)
    :: scan.errors.map (fun e => .reported e.diagnostic)

/-- The events of a parse: a note for each declaration that was dropped, a note
on the whole, then a diagnostic for each error. -/
def Parse.events (p : Parse) : List Event :=
  p.errors.map (fun e => .noted (.dropped e))
    ++ .noted (.parsed p.statements.length p.errors.length)
    :: p.errors.map (fun e => .reported e.diagnostic)

/-- **Reads a source text.** -/
def SourceText.read (s : SourceText) : Reading :=
  let scan := s.scan
  let p := parse scan.tokens
  ⟨scan.tokens, p.statements, scan.events s.name ++ p.events⟩

/-- How many errors were reported while reading. -/
def Reading.errorCount (r : Reading) : Nat := r.events.countP Event.isError

/-- The events between reading a text and executing it. -/
def Reading.announcement (r : Reading) (file : String) : List Event :=
  (if r.errorCount = 0 then []
    else [.noted (.proceeding r.errorCount file)])
    ++ [.noted (.interpreting r.statements.length)]

/-- The events of an execution that was stopped. -/
def Halt.events : Halt → List Event
  | .error e => [.noted (.failed e), .reported e.diagnostic]
  | .tooManyRounds => []

/-- **What a run gives.** -/
structure Run where
  /-- How it ended. There is no answer if a loop took more rounds than it
  may. -/
  outcome : Option Outcome
  /-- The environment it leaves. -/
  env : Env
  /-- What the outside was let known, in order. -/
  events : Array Event
deriving Repr

namespace Run

/-- The lines that were printed. -/
def lines (r : Run) : List String := r.events.toList.filterMap Event.line?

/-- The diagnostics that were reported. -/
def diagnostics (r : Run) : List Diagnostic :=
  r.events.toList.filterMap Event.diagnostic?

/-- The notes that were taken. -/
def notes (r : Run) : List Note := r.events.toList.filterMap Event.note?

end Run

/-- How a run ends, by the number of errors met while reading and the way
execution ended. -/
def Outcome.of (errors : Nat) : Except Halt Unit → Option Outcome
  | .error .tooManyRounds => none
  | .error (.error _) =>
    some (if errors = 0 then .runtimeError else .staticErrors)
  | .ok () => some (if errors = 0 then .completed else .staticErrors)

/-- The events behind an execution: what stopped it, and a note on the
outcome. -/
def closingEvents (file : String) (outcome : Option Outcome) :
    Except Halt Unit → List Event
  | .error h =>
    h.events ++ (outcome.map (fun o => .noted (.finished file o))).toList
  | .ok () => (outcome.map (fun o => .noted (.finished file o))).toList

/-- **Runs a source text** against an environment, with a bound on the rounds
of each loop. -/
def SourceText.run (s : SourceText) (rounds : Nat) (env : Env) : Run :=
  let reading := s.read
  let before := reading.events ++ reading.announcement s.name
  let (r, m) := Stmt.execAll rounds reading.statements ⟨env, before.toArray⟩
  let outcome := Outcome.of reading.errorCount r
  ⟨outcome, m.env, m.events ++ (closingEvents s.name outcome r).toArray⟩

end TreeScript
