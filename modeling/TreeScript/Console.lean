import TreeScript.Event
import TreeScript.Printer

/-!
# The console

Events become text on two streams: printed lines and prompts go to the standard
output, diagnostics and the log go to the standard error. The console keeps the
order in which the pieces are written.
-/

namespace TreeScript

/-- **A piece of text** on one of the two streams. -/
inductive Chunk where
  /-- On the standard output. -/
  | out (text : String)
  /-- On the standard error. -/
  | err (text : String)
deriving Repr, DecidableEq, Inhabited

/-- **What events are shown on.** -/
structure Console where
  /-- How diagnostics are shown. -/
  printer : Printer
  /-- Which records the log shows. -/
  filter : LogFilter
  /-- Whether the log is coloured. -/
  coloured : Bool
  /-- Why nothing can be written to the standard output, if so. -/
  outputFault : Option String := none
  /-- What was written, in order. -/
  chunks : Array Chunk := #[]
deriving Repr

namespace Console

/-- Writes to the standard error. -/
def complain (c : Console) (text : String) : Console :=
  { c with chunks := c.chunks.push (.err text) }

/-- Writes to the standard output, if that is possible. -/
def write (c : Console) (text : String) : Console :=
  match c.outputFault with
  | some _ => c
  | none => { c with chunks := c.chunks.push (.out text) }

/-- Shows a note in the log. -/
def log (c : Console) (n : Note) : Console :=
  c.complain (n.record.shown c.filter c.coloured)

/-- The prompt of an interactive session. -/
def prompt : String := "> "

/-- **Shows an event.** A printed line that cannot be written is an error in the
log. -/
def handle (c : Console) : Event → Console
  | .noted n => c.log n
  | .reported d =>
    let c := c.log (.reporting d)
    { c with printer := c.printer.count d }.complain (c.printer.render d)
  | .printed line =>
    match c.outputFault with
    | some reason => c.log (.unwritable reason)
    | none => c.write (line ++ "\n")
  | .prompted => c.write prompt
  | .opened s => { c with printer := c.printer.withSource s }
  | .settled => { c with printer := c.printer.reset }

/-- Shows events in order. -/
def handleAll (c : Console) (es : List Event) : Console := es.foldl handle c

/-- All that was written to the standard output. -/
def output (chunks : Array Chunk) : String :=
  String.join (chunks.toList.filterMap fun
    | .out text => some text
    | .err _ => none)

/-- All that was written to the standard error. -/
def errors (chunks : Array Chunk) : String :=
  String.join (chunks.toList.filterMap fun
    | .err text => some text
    | .out _ => none)

end Console

end TreeScript
