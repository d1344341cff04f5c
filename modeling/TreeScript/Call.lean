import TreeScript.CommandLine
import TreeScript.Console
import TreeScript.Path
import TreeScript.Session

/-!
# Calls of the program

What a call of the program does, as a function of its surroundings: the files it
may read, its input, and what its output can show. The answer is an exit code and
what is written on the way.

Settings come from a configuration text. Which texts are well formed, and what
they say, is left open here: everything below takes the reader of such texts as a
parameter, and `TreeScript.Program` chooses one. A call asks three things of its
settings in turn: whether there is a file, whether it can be read, and whether the
reader accepts its text. Only without a file do the defaults hold.
-/

namespace TreeScript

/-! ## Surroundings -/

/-- **Why a file cannot be read.** -/
inductive FileFault where
  | missing
  | isDirectory
  /-- A file stands where the path wants a directory. -/
  | notADirectory
  | other (reason : String)
deriving Repr, DecidableEq, Inhabited

/-- What the user is told. -/
def FileFault.message : FileFault → String
  | .missing => "No such file or directory (os error 2)"
  | .isDirectory => "Is a directory (os error 21)"
  | .notADirectory => "Not a directory (os error 20)"
  | .other reason => reason

/-- **What a call of the program finds around it.** -/
structure Surroundings where
  /-- The bytes of a file, by its path. -/
  file : String → Except FileFault Bytes
  /-- Whether a path leads to a file, be it one that cannot be read. Directories
  and devices are no files. -/
  isFile : String → Bool := fun path => (file path).isOk
  /-- The path of the working directory. -/
  directory : String
  /-- The standard input. -/
  input : Bytes := []
  /-- Whether the output shows colours. -/
  colourful : Bool := false
  /-- Why nothing can be written to the standard output, if so. -/
  outputFault : Option String := none

/-- Whether colours are shown: they can be forced by one variable and switched
off by two others, and otherwise a terminal shows them. -/
def showsColours (force never wanted : Option String) (terminal : Bool) :
    Bool :=
  let isOn (v : String) := v != "0"
  if force.any isOn then true
  else if never.isSome then false
  else wanted.all isOn && terminal

/-- **What a call of the program leaves**: its exit code and what it wrote. -/
structure Exit where
  /-- The exit code. -/
  code : Nat
  /-- What was written, in order. -/
  chunks : Array Chunk
deriving Repr

/-! ## Reading files -/

/-- **Why a call fails** before its command can do its work, or in the middle of
it. -/
inductive ProgramFault where
  /-- A file cannot be read. -/
  | unreadable (path reason : String)
  /-- The settings are not well formed. -/
  | badSettings (path : String)
  /-- An interactive session has failed. -/
  | session (f : SessionFault)
deriving Repr, DecidableEq, Inhabited

/-- What the user is told. -/
def ProgramFault.message : ProgramFault → String
  | .unreadable path reason => "failed to read " ++ path ++ ": " ++ reason
  | .badSettings path =>
    "invalid configuration in " ++ path ++ ": TOML parse error"
  | .session f => f.message

/-- The text of bytes read from a file. -/
def decodeFile (path : String) (bs : Bytes) : Except ProgramFault String :=
  match bs.text? with
  | some text => .ok text
  | none => .error (.unreadable path invalidText)

namespace Surroundings

/-- Reads a file as text. -/
def readText (w : Surroundings) (path : String) : Except ProgramFault String :=
  match w.file path with
  | .ok bs => decodeFile path bs
  | .error e => .error (.unreadable path e.message)

/-- Reads a script. -/
def readScript (w : Surroundings) (path : String) :
    Except ProgramFault SourceText := do
  return ⟨path, ← w.readText path⟩

/-- Reads settings. Without a file the defaults hold; a file that cannot be read
is a fault like one that is not well formed. -/
def readSettings (reader : String → Option Config) (w : Surroundings)
    (path : String) : Except ProgramFault Config :=
  if w.isFile path then do
    match reader (← w.readText path) with
    | some c => return c
    | none => throw (.badSettings path)
  else .ok {}

end Surroundings

/-- The name of the file with settings. -/
def settingsName : String := "xerith.toml"

/-- The directory that settings are looked for in: that of the script, or the
working directory. -/
def Command.directory (c : Command) (working : String) : String :=
  match c.file? with
  | some file => Path.directory file
  | none => working

/-- The path of the file with settings. -/
def Command.settingsPath (c : Command) (working : String) : String :=
  Path.inDirectory (c.directory working) settingsName

/-! ## Commands -/

namespace Console

/-- The console of a call, with the first record of its log. That record still
has colours if only the settings speak against them. -/
def start (i : Invocation) (c : Config) (w : Surroundings) : Console :=
  let settings : DiagnosticSettings :=
    { c.diagnostics with color := c.diagnostics.color && !i.switches.plain }
  let filter : LogFilter :=
    .upTo (if i.switches.verbose || c.log.debug then .debug else .warn)
  let coloured := w.colourful && settings.color
  { printer := { settings, colourful := w.colourful }
    filter
    coloured
    outputFault := w.outputFault
    chunks := #[.err (filter.installed.shown filter w.colourful)] }

/-- Ends a call with an exit code. -/
def exit (c : Console) (code : Nat) : Exit := ⟨code, c.chunks⟩

/-- A fault as the user is told of it. -/
def faultText (coloured : Bool) (f : ProgramFault) : String :=
  Style.boldRed.paint coloured "error" ++ ": " ++ f.message ++ "\n"

/-- Ends a call with a fault. -/
def fail (c : Console) (f : ProgramFault) : Exit :=
  (c.complain (faultText c.coloured f)).exit 1

/-- The exit code of a listing: that of static errors if there were any. -/
def listingCode (c : Console) : Nat :=
  if c.printer.errors = 0 then 0 else Outcome.staticErrors.exitCode

/-- The exit code of a listing that cannot be written. -/
def brokenListing : Nat := 101

/-- Ends a call with a listing. -/
def list (c : Console) (lines : List String) : Exit :=
  if c.outputFault.isSome && !lines.isEmpty then c.exit brokenListing
  else
    (lines.foldl (fun c line => c.write (line ++ "\n")) c).exit c.listingCode

end Console

/-- The exit code of a run that was not finished. -/
def unfinishedCode : Nat := 75

/-- Runs a script. -/
def runScript (rounds : Nat) (c : Console) (s : SourceText) : Exit :=
  let run := s.run rounds {}
  let c := c.handleAll (.opened s :: run.events.toList)
  c.exit ((run.outcome.map Outcome.exitCode).getD unfinishedCode)

/-- Lists the tokens of a script. -/
def listTokens (c : Console) (s : SourceText) : Exit :=
  let scan := s.scan
  (c.handleAll (.opened s :: scan.events s.name)).list
    (scan.tokens.map Token.listing)

/-- Lists the statements of a script in prefix form. -/
def listTree (c : Console) (s : SourceText) : Exit :=
  let reading := s.read
  (c.handleAll (.opened s :: reading.events)).list
    (reading.statements.map Stmt.text)

/-- The fate of every prompt of a session. -/
def promptFate : Option String → PromptFate
  | none => .shown
  | some reason => .unflushed reason

/-- Ends a call with the end of its session. -/
def Console.closeSession (c : Console) : SessionEnd → Exit
  | .endOfInput => c.exit 0
  | .failed f => c.fail (.session f)
  | .tooManyRounds => c.exit unfinishedCode

/-- Holds an interactive session. -/
def holdSession (rounds : Nat) (c : Console) (input : Bytes) : Exit :=
  let session :=
    Session.hold rounds (fun _ => promptFate c.outputFault) input {}
  (c.handleAll session.events).closeSession session.finish

/-- **Prepares a call**: reads the settings and sets the console up. Settings that
cannot be read or are not well formed end the call. -/
def Invocation.prepare (i : Invocation) (reader : String → Option Config)
    (w : Surroundings) : Except Exit Console :=
  match w.readSettings reader (i.command.settingsPath w.directory) with
  | .ok config => .ok (Console.start i config w)
  | .error f => .error ⟨1, #[.err (Console.faultText w.colourful f)]⟩

/-- Does something with a script, if it can be read. -/
def Surroundings.withScript (w : Surroundings) (c : Console) (file : String)
    (act : Console → SourceText → Exit) : Exit :=
  match w.readScript file with
  | .ok s => act c s
  | .error f => c.fail f

/-- **Carries out a command** on a console that has been set up. -/
def Command.execute (rounds : Nat) (w : Surroundings) (c : Console) :
    Command → Exit
  | .run file => w.withScript c file (runScript rounds)
  | .tokens file => w.withScript c file listTokens
  | .tree file => w.withScript c file listTree
  | .repl => holdSession rounds c w.input

/-- **Carries out a call.** Settings are read first, then the script. -/
def Invocation.execute (i : Invocation) (reader : String → Option Config)
    (rounds : Nat) (w : Surroundings) : Exit :=
  match i.prepare reader w with
  | .ok c => i.command.execute rounds w c
  | .error e => e

/-- The version of the program. -/
def versionText : String := "xerith-interpreter 0.0.3\n"

/-- How the program is used. -/
def usageText : String :=
  "Usage: xerith [OPTIONS] <COMMAND>\n\n"
    ++ "Commands:\n"
    ++ "  run <FILE>     Run a script\n"
    ++ "  repl           Start an interactive session\n"
    ++ "  tokens <FILE>  Print the tokens of a script\n"
    ++ "  ast <FILE>     Print the statements of a script in prefix form\n"
    ++ "  help           Print this message\n\n"
    ++ "Options:\n"
    ++ "  -v, --verbose   Log pipeline progress to standard error\n"
    ++ "      --no-color  Print diagnostics without colors\n"
    ++ "  -h, --help      Print help\n"
    ++ "  -V, --version   Print version\n"

/-- Ends a call with an answer on the standard output, if that can be
written. -/
def Surroundings.tell (w : Surroundings) (text : String) : Exit :=
  ⟨0, if w.outputFault.isSome then #[] else #[.out text]⟩

/-- **Answers a request**, given a reader of settings. -/
def Request.answerBy (reader : String → Option Config) (rounds : Nat)
    (w : Surroundings) : Request → Exit
  | .help => w.tell usageText
  | .version => w.tell versionText
  | .mistake => ⟨2, #[.err usageText]⟩
  | .invoke i => i.execute reader rounds w

end TreeScript
