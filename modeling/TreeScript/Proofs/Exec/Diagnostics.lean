import TreeScript.Run
import TreeScript.Proofs.Exec.Steps

/-!
# The diagnostics of a run

Statements print lines and take notes, but they report nothing: the error that
stops them is reported by the run as a whole. So the diagnostics of a run are
those of its scan, those of its parse, and that of the error that stopped it, in
this order (`SourceText.diagnostics_run`). The other way round, all lines of a run
are printed by its statements (`SourceText.run_lines`).

The order is what a caller reads on the standard error, and what every statement
about "each diagnostic of a run" is split along: a diagnostic of the scan knows
its place from the text, one of the parse from a token, one of the execution
from a token that the parser kept in the tree. The counts at the end are those
that decide the exit code of the command.

The events are recorded in one list, lines and diagnostics mixed. Each half of
the module filters this list, and each part that adds to it has a lemma per
filter.
-/

namespace TreeScript

/-- The diagnostics that were reported so far. -/
def Machine.diagnostics (m : Machine) : List Diagnostic :=
  m.events.toList.filterMap Event.diagnostic?

/-! ## Statements report nothing

The only events that a statement adds are lines that are printed and notes on
definitions. So the diagnostics are an invariant of execution, of the plainest
kind: the list does not change. -/

namespace Machine

variable (m : Machine)

/-- An event that is no diagnostic leaves the diagnostics as they are. -/
theorem diagnostics_emit {e : Event} (h : e.diagnostic? = none) :
    (m.emit e).diagnostics = m.diagnostics := by
  unfold diagnostics emit
  rw [Array.toList_push, List.filterMap_append, List.filterMap_cons_none h,
    List.filterMap_nil, List.append_nil]

theorem diagnostics_define (name : String) (v : Value) :
    (m.define name v).diagnostics = m.diagnostics :=
  diagnostics_emit _ rfl

end Machine

namespace Stmt

variable (rounds : Nat) {ds : List Diagnostic} {m : Machine}

/-- The step for lists of statements, with the induction hypothesis of
`diagnostics_exec` as its assumption: the list may be left in the middle, and
what was reported before stays. -/
theorem diagnostics_execAll {body : List Stmt}
    (h : ∀ s ∈ body, ∀ m : Machine, m.diagnostics = ds →
      (exec rounds s m).2.diagnostics = ds) (hm : m.diagnostics = ds) :
    (execAll rounds body m).2.diagnostics = ds := by
  induction body generalizing m with
  | nil =>
    rw [execAll_nil]
    exact hm
  | cons s ss ih =>
    obtain ⟨hs, hss⟩ := List.forall_mem_cons.1 h
    rw [execAll_cons]
    exact andThen_keeps (I := (Machine.diagnostics · = ds)) (hs m hm)
      fun _ m hm => ih hss hm

/-- **A statement reports nothing**, however it ends. It is an invariant of the
events, and holds of every tree and every state; what is reported about an error
is added by the run once the execution has ended. -/
theorem diagnostics_exec (s : Stmt) (hm : m.diagnostics = ds) :
    (exec rounds s m).2.diagnostics = ds := by
  induction s generalizing m with
  | block span body ih =>
    rw [exec_block]
    exact diagnostics_execAll rounds (fun s hs m hm => ih s hs hm) hm
  | expression span e =>
    rw [exec_expression]
    exact andThen_keeps (I := (Machine.diagnostics · = ds)) hm fun _ _ hm => hm
  | branch span c t e iht ihe =>
    rw [exec_branch]
    refine andThen_keeps (I := (Machine.diagnostics · = ds)) hm
      fun holds m hm => ?_
    cases holds with
    | true => exact iht hm
    | false =>
      cases e with
      | none => exact hm
      | some s => exact ihe s rfl hm
  | print span e =>
    rw [exec_print]
    exact andThen_keeps (I := (Machine.diagnostics · = ds)) hm
      fun v m hm => (m.diagnostics_emit rfl).trans hm
  | define span name e =>
    rw [exec_define]
    refine andThen_keeps (I := (Machine.diagnostics · = ds)) ?_
      fun v m hm => (m.diagnostics_define _ v).trans hm
    cases e with
    | none => exact hm
    | some e => exact hm
  | loop span c body ih =>
    rw [exec_loop]
    exact whileLoop_keeps (I := (Machine.diagnostics · = ds)) (fun m hm => hm)
      (fun m hm => ih hm) rounds hm

end Stmt

/-! ## Runs

The events of a run are laid down in the order of its phases, and the filter
goes through the phases one by one. -/

section Reading

/-- Reporting a list of diagnostics reports just these. -/
theorem filterMap_reported {α : Type} (f : α → Diagnostic) (es : List α) :
    (es.map fun e => Event.reported (f e)).filterMap Event.diagnostic?
      = es.map f := by
  rw [List.filterMap_map]
  exact congrFun List.filterMap_eq_map es

/-- The scan reports each of its errors once, in the order in which they were
found. -/
theorem Scan.diagnostics_events (scan : Scan) (file : String) :
    (scan.events file).filterMap Event.diagnostic?
      = scan.errors.map LexicalError.diagnostic :=
  filterMap_reported _ scan.errors

/-- The parse notes each dropped declaration and then reports the error of each.
The notes are no diagnostics, so what is left are the errors in their order. -/
theorem Parse.diagnostics_events (p : Parse) :
    p.events.filterMap Event.diagnostic?
      = p.errors.map ParseError.diagnostic := by
  have hdropped : (p.errors.map fun e => Event.noted (.dropped e)).filterMap
      Event.diagnostic? = [] := by
    rw [List.filterMap_map]
    exact List.filterMap_eq_nil_iff.2 fun _ _ => rfl
  unfold events
  rw [List.filterMap_append, hdropped, List.nil_append]
  exact filterMap_reported _ p.errors

/-- Announcing the program, or that there is none, is a note. -/
theorem Reading.diagnostics_announcement (r : Reading) (file : String) :
    (r.announcement file).filterMap Event.diagnostic? = [] := by
  unfold announcement
  split <;> rfl

end Reading

/-- What is reported about an execution that was stopped. -/
def haltDiagnostics : Except Halt Unit → List Diagnostic
  | .error (.error e) => [e.diagnostic]
  | _ => []

/-- The closing events report at most one diagnostic, that of the error which
stopped the execution. That a loop was cut off is no error of the script. -/
theorem diagnostics_closingEvents (file : String) (outcome : Option Outcome)
    (r : Except Halt Unit) :
    (closingEvents file outcome r).filterMap Event.diagnostic?
      = haltDiagnostics r := by
  match r with
  | .ok () => cases outcome <;> rfl
  | .error (.error e) => cases outcome <;> rfl
  | .error .tooManyRounds => cases outcome <;> rfl

/-- The state that a text is executed from: an environment, and the events of
reading the text. -/
def SourceText.start (source : SourceText) (env : Env) : Machine where
  env := env
  events :=
    (source.read.events ++ source.read.announcement source.name).toArray

/-- What reading has reported before the first statement runs: first the errors
of the scan, then those of the parse. -/
theorem SourceText.diagnostics_start (source : SourceText) (env : Env) :
    (source.start env).diagnostics
      = source.scan.errors.map LexicalError.diagnostic
        ++ (parse source.scan.tokens).errors.map ParseError.diagnostic := by
  show List.filterMap Event.diagnostic? (source.read.events ++ _) = _
  rw [List.filterMap_append, Reading.diagnostics_announcement, List.append_nil]
  show List.filterMap _ (source.scan.events source.name ++ _) = _
  rw [List.filterMap_append, Scan.diagnostics_events, Parse.diagnostics_events]

/-- **The diagnostics of a run**: those of the scan, those of the parse, and
that of the error that stopped the execution, if one did. All later statements
about each diagnostic of a run begin with this equation and treat the three
parts apart. -/
theorem SourceText.diagnostics_run (source : SourceText) (rounds : Nat)
    (env : Env) :
    (source.run rounds env).diagnostics
      = source.scan.errors.map LexicalError.diagnostic
        ++ (parse source.scan.tokens).errors.map ParseError.diagnostic
        ++ haltDiagnostics (Stmt.execAll rounds
          (parse source.scan.tokens).statements (source.start env)).1 := by
  have hexec := Stmt.diagnostics_execAll rounds
    (fun s (_ : s ∈ (parse source.scan.tokens).statements) _ hm =>
      s.diagnostics_exec rounds hm) (source.diagnostics_start env)
  -- What the execution has recorded comes first, the closing events behind it.
  show List.filterMap _ (Array.toList (_ ++ List.toArray _)) = _
  rw [Array.toList_append, List.filterMap_append, List.toList_toArray,
    diagnostics_closingEvents]
  exact congrArg (· ++ _) hexec

/-! ## Lines and errors of a run

The same filter for lines, and the number of errors: the outcome of a run is
decided by a count over all events, which is brought to a count of each phase. -/

/-- The lines that were printed so far. -/
def Machine.lines (m : Machine) : List String :=
  m.events.toList.filterMap Event.line?

section Run

variable (source : SourceText) (rounds : Nat) (env : Env)

/-- **The execution of a text**, from the state that reading it leaves. -/
def SourceText.execute : Except Halt Unit × Machine :=
  Stmt.execAll rounds (parse source.scan.tokens).statements (source.start env)

theorem SourceText.run_env :
    (source.run rounds env).env = (source.execute rounds env).2.env :=
  rfl

/-- The outcome looks at the errors of reading and at how the execution ended,
and at nothing else. -/
theorem SourceText.run_outcome :
    (source.run rounds env).outcome
      = Outcome.of source.read.errorCount (source.execute rounds env).1 :=
  rfl

/-- How a run ended is reported and noted, but not printed. -/
theorem lines_closingEvents (file : String) (outcome : Option Outcome)
    (r : Except Halt Unit) :
    (closingEvents file outcome r).filterMap Event.line? = [] := by
  match r with
  | .ok () => cases outcome <;> rfl
  | .error (.error e) => cases outcome <;> rfl
  | .error .tooManyRounds => cases outcome <;> rfl

/-- Only the execution prints lines. -/
theorem SourceText.run_lines :
    (source.run rounds env).lines = (source.execute rounds env).2.lines := by
  show List.filterMap _ (Array.toList (_ ++ List.toArray _)) = _
  rw [Array.toList_append, List.filterMap_append, List.toList_toArray,
    lines_closingEvents, List.append_nil]
  rfl

/-- Events that print nothing, one for each element of a list. -/
theorem lines_map {α : Type} {f : α → Event} (h : ∀ x, (f x).line? = none)
    (xs : List α) : (xs.map f).filterMap Event.line? = [] := by
  rw [List.filterMap_map]
  exact List.filterMap_eq_nil_iff.2 fun x _ => h x

theorem Scan.lines_events (scan : Scan) (file : String) :
    (scan.events file).filterMap Event.line? = [] :=
  lines_map (fun _ => rfl) scan.errors

theorem Parse.lines_events (p : Parse) :
    p.events.filterMap Event.line? = [] := by
  unfold events
  rw [List.filterMap_append, List.filterMap_cons_none rfl,
    lines_map fun _ => rfl, lines_map fun _ => rfl, List.append_nil]

theorem Reading.lines_announcement (r : Reading) (file : String) :
    (r.announcement file).filterMap Event.line? = [] := by
  unfold announcement
  split <;> rfl

theorem SourceText.lines_start : (source.start env).lines = [] := by
  show List.filterMap Event.line? ((source.scan.events source.name ++ _) ++ _) = _
  rw [List.filterMap_append, List.filterMap_append, Scan.lines_events,
    Parse.lines_events, Reading.lines_announcement]
  rfl

/-- The errors among some events are those among their diagnostics. -/
theorem countP_isError (events : List Event) :
    events.countP Event.isError
      = (events.filterMap Event.diagnostic?).countP Diagnostic.isError := by
  rw [List.countP_filterMap]
  refine List.countP_congr fun e _ => ?_
  cases e <;> rfl

/-- The number of errors that decides whether a text is executed at all, as a
count over the diagnostics of the scan and the parse. -/
theorem SourceText.errorCount_eq_countP :
    source.read.errorCount
      = (source.scan.errors.map LexicalError.diagnostic
          ++ (parse source.scan.tokens).errors.map
            ParseError.diagnostic).countP Diagnostic.isError := by
  show List.countP _ (source.scan.events source.name ++ _) = _
  rw [countP_isError, List.filterMap_append, Scan.diagnostics_events,
    Parse.diagnostics_events]

/-- **The errors of reading a text** are its lexical errors and its faults of
the grammar. The run decides by this number whether there were static errors, so
that a text with warnings only is run as one without. -/
theorem SourceText.errorCount_read :
    source.read.errorCount
      = source.scan.errors.countP (·.fault.severity == .error)
        + (parse source.scan.tokens).errors.length := by
  have hlexical (e : LexicalError) :
      e.diagnostic.isError = (e.fault.severity == .error) := by
    obtain ⟨span, fault⟩ := e
    cases fault <;> rfl
  have hgrammar : (parse source.scan.tokens).errors.countP
      (Diagnostic.isError ∘ ParseError.diagnostic)
        = (parse source.scan.tokens).errors.length :=
    List.countP_eq_length.2 fun _ _ => rfl
  -- Lexical errors are counted by their severity, since some are warnings.
  -- Every fault of the grammar is an error.
  rw [source.errorCount_eq_countP, List.countP_append, List.countP_map,
    List.countP_map, hgrammar]
  exact congrArg (· + _) (List.countP_congr fun e _ => by rw [← hlexical]; rfl)

/-- The error that stopped an execution is reported as an error. -/
theorem countP_haltDiagnostics (r : Except Halt Unit) :
    (haltDiagnostics r).countP Diagnostic.isError
      = (haltDiagnostics r).length := by
  refine List.countP_eq_length.2 fun d hd => ?_
  match r, hd with
  | .error (.error ⟨span, fault⟩), hd =>
    rw [List.mem_singleton.1 hd]
    cases fault <;> rfl

/-- **The errors that a run reports** are those of reading the text, and the one
that stopped the execution. Warnings are diagnostics as well, but none of
these. -/
theorem SourceText.countP_isError_run :
    (source.run rounds env).events.toList.countP Event.isError
      = source.read.errorCount
        + (haltDiagnostics (source.execute rounds env).1).length := by
  rw [countP_isError, source.errorCount_eq_countP, ← countP_haltDiagnostics,
    ← List.countP_append]
  exact congrArg _ (source.diagnostics_run rounds env)

end Run

end TreeScript
