/-!
# The command line

A command line names a command and the file it works on. Switches may stand in
front of the command or behind it, but each only once at either place. The
arguments are read from left to right, and the first one that settles the matter
does so: a request for help or for the version, or a mistake.
-/

namespace TreeScript

/-- **What the program is asked to do.** -/
inductive Command where
  /-- Run a script. -/
  | run (file : String)
  /-- Hold an interactive session. -/
  | repl
  /-- List the tokens of a script. -/
  | tokens (file : String)
  /-- List the statements of a script in prefix form. -/
  | tree (file : String)
deriving Repr, DecidableEq, Inhabited

/-- The script that the command works on, if it works on one. -/
def Command.file? : Command → Option String
  | .run f | .tokens f | .tree f => some f
  | .repl => none

/-- **Choices for one call** of the program. -/
structure Switches where
  /-- Whether the log shows the progress of the stages. -/
  verbose : Bool := false
  /-- Whether colours are unwanted. -/
  plain : Bool := false
deriving Repr, DecidableEq, Inhabited

/-- Switches that are set in either of two places. -/
def Switches.either (a b : Switches) : Switches :=
  ⟨a.verbose || b.verbose, a.plain || b.plain⟩

/-- **A command and the choices for it.** -/
structure Invocation where
  /-- What is to be done. -/
  command : Command
  /-- How it is to be done. -/
  switches : Switches := {}
deriving Repr, DecidableEq, Inhabited

/-- **What a command line asks for.** -/
inductive Request where
  /-- How the program is used. -/
  | help
  /-- Which version it is. -/
  | version
  /-- A command. -/
  | invoke (i : Invocation)
  /-- Nothing that makes sense. -/
  | mistake
deriving Repr, DecidableEq, Inhabited

/-- What an option leads to: more switches, or a request at once. -/
abbrev OptionResult := Except Request Switches

namespace Switches

/-- Sets the switch for a verbose log. It can be set only once. -/
def setVerbose (s : Switches) : OptionResult :=
  if s.verbose then .error .mistake else .ok { s with verbose := true }

/-- Sets the switch against colours. It can be set only once. -/
def setPlain (s : Switches) : OptionResult :=
  if s.plain then .error .mistake else .ok { s with plain := true }

/-- An option of several letters. The version can only be asked for in front of
the command. -/
def long (inFront : Bool) (s : Switches) : String → OptionResult
  | "--verbose" => s.setVerbose
  | "--no-color" => s.setPlain
  | "--help" => .error .help
  | "--version" => .error (if inFront then .version else .mistake)
  | _ => .error .mistake

/-- Options of one letter each, behind a single hyphen. -/
def short (inFront : Bool) (s : Switches) : List Char → OptionResult
  | [] => .ok s
  | 'v' :: cs => s.setVerbose.bind (fun s' => short inFront s' cs)
  | 'h' :: _ => .error .help
  | 'V' :: _ => .error (if inFront then .version else .mistake)
  | _ => .error .mistake

/-- What an argument leads to if it is an option. A hyphen alone is none. -/
def option? (inFront : Bool) (s : Switches) (arg : String) :
    Option OptionResult :=
  match arg.toList with
  | '-' :: '-' :: _ => some (s.long inFront arg)
  | '-' :: c :: cs => some (s.short inFront (c :: cs))
  | _ => none

end Switches

namespace Request

/-- The request behind an option. -/
def behindOption (r : OptionResult) (next : Switches → Request) : Request :=
  match r with
  | .ok s => next s
  | .error q => q

/-- Reads the arguments of a command that wants a file. The flag tells that no
more options follow. -/
def withFile (command : String → Command) (outer : Switches) :
    Bool → Switches → Option String → List String → Request
  | _, _, none, [] => .mistake
  | _, s, some file, [] => .invoke ⟨command file, outer.either s⟩
  | literal, s, file, arg :: args =>
    if !literal && arg == "--" then withFile command outer true s file args
    else
      match if literal then none else s.option? false arg with
      | some r =>
        behindOption r fun s' => withFile command outer false s' file args
      | none =>
        if file.isSome || arg.isEmpty then .mistake
        else withFile command outer literal s (some arg) args

/-- Reads the arguments of a command that wants no file. -/
def withoutFile (command : Command) (outer : Switches) :
    Bool → Switches → List String → Request
  | _, s, [] => .invoke ⟨command, outer.either s⟩
  | literal, s, arg :: args =>
    if !literal && arg == "--" then withoutFile command outer true s args
    else
      match if literal then none else s.option? false arg with
      | some r =>
        behindOption r fun s' => withoutFile command outer false s' args
      | none => .mistake

/-- The commands by name. -/
def commandNames : List String := ["run", "repl", "tokens", "ast", "help"]

/-- A request for help on a command, or on none. -/
def helpOn : List String → Request
  | [] => .help
  | [name] => if commandNames.contains name then .help else .mistake
  | _ => .mistake

/-- Reads the name of a command and what follows it. -/
def named (s : Switches) (args : List String) : String → Request
  | "run" => withFile .run s false {} none args
  | "tokens" => withFile .tokens s false {} none args
  | "ast" => withFile .tree s false {} none args
  | "repl" => withoutFile .repl s false {} args
  | "help" => helpOn args
  | _ => .mistake

/-- Reads options up to the name of a command. -/
def front : Switches → List String → Request
  | _, [] => .mistake
  | s, arg :: args =>
    if arg == "--" then .mistake
    else
      match s.option? true arg with
      | some r => behindOption r fun s' => front s' args
      | none => named s args arg

/-- **Reads a command line.** -/
def ofArguments (args : List String) : Request := front {} args

end Request

end TreeScript
