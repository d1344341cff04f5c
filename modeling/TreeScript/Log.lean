import TreeScript.Style

/-!
# The log

A record of the log has a level and a message, and may name where it comes from.
A filter lets the records of some level and of all more serious levels through.
-/

namespace TreeScript

/-- **How serious a record of the log is.** -/
inductive Level where
  | error
  | warn
  | info
  | debug
  | trace
deriving Repr, DecidableEq, Inhabited

namespace Level

/-- Every level, the most serious one first. -/
def all : List Level := [.error, .warn, .info, .debug, .trace]

/-- The place of the level in the order from serious to verbose. -/
def rank : Level → Nat
  | error => 1
  | warn => 2
  | info => 3
  | debug => 4
  | trace => 5

/-- How the level is written. -/
def name : Level → String
  | error => "ERROR"
  | warn => "WARN"
  | info => "INFO"
  | debug => "DEBUG"
  | trace => "TRACE"

/-- The level with a given name. -/
def ofName? (s : String) : Option Level :=
  all.find? (fun l => l.name = s)

/-- The style of the level's name. -/
def style : Level → Style
  | error => .boldRed
  | warn => .boldYellow
  | info => .green
  | debug => .blue
  | trace => .dimmed

end Level

/-- **Which records the log shows**: those of a level and of all more serious
ones, or none at all. -/
inductive LogFilter where
  | off
  | upTo (l : Level)
deriving Repr, DecidableEq, Inhabited

namespace LogFilter

/-- How the filter is written. -/
def name : LogFilter → String
  | off => "OFF"
  | upTo l => l.name

/-- The filter with a given name. -/
def ofName? (s : String) : Option LogFilter :=
  if s = "OFF" then some off else (Level.ofName? s).map upTo

/-- Whether a record of a level is shown. -/
def shows (f : LogFilter) (l : Level) : Bool :=
  match f with
  | off => false
  | upTo most => decide (l.rank ≤ most.rank)

end LogFilter

/-- **A record of the log.** -/
structure LogRecord where
  /-- How serious it is. -/
  level : Level
  /-- Where it comes from, if that is told. -/
  origin : Option String
  /-- What it says. -/
  message : String
deriving Repr, DecidableEq, Inhabited

namespace LogRecord

/-- The line of a record: level, origin and message. -/
def line (r : LogRecord) (coloured : Bool) : String :=
  "[" ++ r.level.style.paint coloured r.level.name ++ "] "
    ++ (match r.origin with
      | some o => o ++ ": "
      | none => "")
    ++ r.message ++ "\n"

/-- The line of a record if the filter lets it through. -/
def shown (r : LogRecord) (f : LogFilter) (coloured : Bool) : String :=
  if f.shows r.level then r.line coloured else ""

end LogRecord

/-- The first record of a log: the level at which it starts. -/
def LogFilter.installed (f : LogFilter) : LogRecord :=
  ⟨.debug, none, "Logger installed at level " ++ f.name⟩

/-- **A whole log**: the lines of its first record and of all that follow. -/
def LogFilter.log (f : LogFilter) (coloured : Bool) (records : List LogRecord) :
    String :=
  String.join ((f.installed :: records).map (·.shown f coloured))

end TreeScript
