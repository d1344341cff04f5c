import TreeScript.Run

/-!
# Interactive sessions

A session asks for a line, runs it, and asks again, until there is no more
input. Names live on from line to line, and an error in one line does not keep
the next one from being run. The session itself fails if a prompt cannot be shown
or a line is not valid text.

Input comes as bytes. A line ends with its line feed, and the last one may have
none.
-/

namespace TreeScript

/-- Text as it comes from outside. -/
abbrev Bytes := List UInt8

/-- The text that bytes stand for, if they are valid. -/
def Bytes.text? (bs : Bytes) : Option String :=
  String.fromUTF8? ⟨bs.toArray⟩

/-- **The lines of an input**, each with its line feed. -/
def Bytes.lines : Bytes → List Bytes
  | [] => []
  | b :: bs =>
    if b = 10 then [b] :: Bytes.lines bs
    else
      match Bytes.lines bs with
      | [] => [[b]]
      | l :: ls => (b :: l) :: ls

/-- What is said about bytes that are no valid text. -/
def invalidText : String := "stream did not contain valid UTF-8"

/-- **What becomes of a prompt.** -/
inductive PromptFate where
  /-- The user sees it. -/
  | shown
  /-- It cannot be written. -/
  | unwritten (reason : String)
  /-- It is written, but held back on the way. -/
  | unflushed (reason : String)
deriving Repr, DecidableEq, Inhabited

/-- **Why a session fails.** -/
inductive SessionFault where
  | promptUnwritten (reason : String)
  | promptUnflushed (reason : String)
  /-- A line is no valid text. -/
  | invalidLine
deriving Repr, DecidableEq, Inhabited

/-- What the user is told. -/
def SessionFault.message : SessionFault → String
  | .promptUnwritten reason => "failed to write the prompt: " ++ reason
  | .promptUnflushed reason => "failed to flush the prompt: " ++ reason
  | .invalidLine => "failed to read from standard input: " ++ invalidText

/-- **How a session ends.** -/
inductive SessionEnd where
  /-- There is no more input. -/
  | endOfInput
  /-- The session has failed. -/
  | failed (f : SessionFault)
  /-- A loop took more rounds than it may. -/
  | tooManyRounds
deriving Repr, DecidableEq, Inhabited

/-- **What a session gives.** -/
structure Session where
  /-- How it ended. -/
  finish : SessionEnd
  /-- The environment it leaves. -/
  env : Env
  /-- What the outside was let known, in order. -/
  events : List Event
deriving Repr

namespace Session

/-- The name of the source that a line of a session is. -/
def lineName : String := "<repl>"

/-- A session that goes on after some events. -/
def behind (events : List Event) (s : Session) : Session :=
  { s with events := events ++ s.events }

/-- **Runs one line** of a session. -/
def runLine (rounds : Nat) (env : Env) (line : String) : Run :=
  let source : SourceText := ⟨lineName, line⟩
  let run := source.run rounds env
  { run with events := #[.opened source] ++ run.events ++ #[.settled] }

/-- What follows a prompt. -/
def afterPrompt (fate : PromptFate) (env : Env) (next : Unit → Session) :
    Session :=
  match fate with
  | .unwritten reason => ⟨.failed (.promptUnwritten reason), env, []⟩
  | .unflushed reason =>
    ⟨.failed (.promptUnflushed reason), env, [.prompted]⟩
  | .shown => (next ()).behind [.prompted]

/-- **What one line leads to**: the environment and the events behind it, and
how the session ends, if it does. -/
structure Turn where
  /-- The environment that the line leaves. -/
  env : Env
  /-- What the outside was let known. -/
  events : List Event
  /-- How the session ends with this line; none if it goes on. -/
  finish : Option SessionEnd
deriving Repr

/-- **Takes a turn**: runs the line that was entered, if there is one. -/
def turn (rounds : Nat) (env : Env) : Option Bytes → Turn
  | none => ⟨env, [.noted .inputEnded], some .endOfInput⟩
  | some bs =>
    match bs.text? with
    | none => ⟨env, [], some (.failed .invalidLine)⟩
    | some line =>
      let run := runLine rounds env line
      ⟨run.env, run.events.toList,
        if run.outcome.isNone then some .tooManyRounds else none⟩

/-- The session behind a turn. -/
def afterTurn (t : Turn) (next : Env → Session) : Session :=
  match t.finish with
  | some finish => ⟨finish, t.env, t.events⟩
  | none => (next t.env).behind t.events

/-- **A session over the lines of its input.** The fate of each prompt is given
by its number, and `k` is the number of the next one. -/
def ofLines (rounds : Nat) (prompt : Nat → PromptFate) :
    List Bytes → Nat → Env → Session
  | [], k, env =>
    afterPrompt (prompt k) env fun _ =>
      afterTurn (turn rounds env none) fun env => ⟨.endOfInput, env, []⟩
  | l :: ls, k, env =>
    afterPrompt (prompt k) env fun _ =>
      afterTurn (turn rounds env (some l)) fun env =>
        ofLines rounds prompt ls (k + 1) env

/-- **Holds a session** over an input. -/
def hold (rounds : Nat) (prompt : Nat → PromptFate) (input : Bytes)
    (env : Env) : Session :=
  ofLines rounds prompt input.lines 0 env

end Session

end TreeScript
