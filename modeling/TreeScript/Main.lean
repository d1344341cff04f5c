import TreeScript.Program

/-!
# The outer layer

Reads files and lines, writes what the program says, and leaves all decisions to
`TreeScript.Program`.
-/

namespace TreeScript.Main

/-- The number of a system error, which may come as its negative. -/
def errorNumber (code : UInt32) : Nat :=
  if code.toNat < Nat.pow 2 31 then code.toNat else Nat.pow 2 32 - code.toNat

/-- The fault that keeps a file from being read. -/
def fileFault : IO.Error → FileFault
  | .noFileOrDirectory .. => .missing
  | .inappropriateType f code d =>
    match errorNumber code with
    | 20 => .notADirectory
    | 21 => .isDirectory
    | _ => .other (toString (IO.Error.inappropriateType f code d))
  | e => .other (toString e)

/-- The bytes of a file. -/
def readFile (path : String) : IO (Except FileFault Bytes) := do
  try
    return .ok (← IO.FS.readBinFile path).toList
  catch e =>
    return .error (fileFault e)

/-- Whether a path leads to a file, be it one that cannot be read. -/
def isFile (path : String) : IO Bool := do
  try
    return (← ((← IO.currentDir) / path).metadata).type == .file
  catch _ =>
    return false

/-- Writes a piece of text. A piece that cannot be written is an error in the
log. -/
def emit : Chunk → IO Unit
  | .err text => do (← IO.getStderr).putStr text
  | .out text => do
    let stdout ← IO.getStdout
    try
      stdout.putStr text
      stdout.flush
    catch e =>
      (← IO.getStderr).putStr ((Note.unwritable (toString e)).record.line false)

/-- Whether the output shows colours. -/
def outputColours : IO Bool := do
  return showsColours (← IO.getEnv "CLICOLOR_FORCE") (← IO.getEnv "NO_COLOR")
    (← IO.getEnv "CLICOLOR") (← (← IO.getStdout).isTty)

/-- What a call finds around it: only the two files it asks for are read. -/
def surroundings (c : Command) : IO Surroundings := do
  let directory := (← IO.currentDir).toString
  let settingsPath := c.settingsPath directory
  let hasSettings ← isFile settingsPath
  let settings ← readFile settingsPath
  let script ←
    match c.file? with
    | some path => readFile path
    | none => pure (.error .missing)
  return {
    file := fun path =>
      if path == settingsPath then settings
      else if some path == c.file? then script
      else .error .missing
    isFile := fun path => path == settingsPath && hasSettings
    directory
    colourful := ← outputColours }

/-- The bytes up to the next line feed or to the end of the input, the last one
first. -/
partial def readLineReversed (stdin : IO.FS.Stream) (read : Bytes) :
    IO Bytes := do
  let next ← stdin.read 1
  match next.toList with
  | [] => return read
  | b :: _ => if b = 10 then return b :: read else readLineReversed stdin (b :: read)

/-- The next line of the input, if there is one. -/
def readLine (stdin : IO.FS.Stream) : IO (Option Bytes) := do
  let bs ← readLineReversed stdin []
  return if bs.isEmpty then none else some bs.reverse

/-- Shows events and writes what they lead to. -/
def showAll (c : Console) (es : List Event) : IO Console := do
  let c := c.handleAll es
  c.chunks.forM emit
  return { c with chunks := #[] }

/-- Takes turns until the session ends. -/
partial def converse (stdin : IO.FS.Stream) (c : Console) (env : Env) :
    IO Nat := do
  let c ← showAll c [.prompted]
  let t := Session.turn ampleRounds env (← readLine stdin)
  let c ← showAll c t.events
  match t.finish with
  | none => converse stdin c t.env
  | some finish =>
    let exit := c.closeSession finish
    exit.chunks.forM emit
    return exit.code

/-- Answers a request and gives the exit code. -/
def answer : Request → IO Nat
  | .invoke i => do
    let w ← surroundings i.command
    match i.command, i.prepare Config.read w with
    | .repl, .ok c => do
      converse (← IO.getStdin) (← showAll c []) {}
    | _, _ => do
      let exit := i.execute Config.read ampleRounds w
      exit.chunks.forM emit
      return exit.code
  | request => do
    let w ← surroundings .repl
    let exit := request.answer ampleRounds w
    exit.chunks.forM emit
    return exit.code

end TreeScript.Main

/-- The entry point. -/
def main (args : List String) : IO UInt32 := do
  let code ← TreeScript.Main.answer (TreeScript.Request.ofArguments args)
  return UInt32.ofNat code
