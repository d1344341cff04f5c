import TreeScript.Call
import TreeScript.Proofs.Exec.Diagnostics
import TreeScript.Proofs.Session.Lines

/-!
# Outcomes and exit codes

How a run ends is decided by what it reports. The same diagnostics are counted in
two places: a run counts the errors among those of its reading
(`Reading.errorCount`), and the console counts the errors it shows
(`Printer.errors`). Running a script exits by the first count, and listing its
tokens or its tree by the second, so the commands agree because the counts do
(`Console.errors_handleAll`).

A run reports the diagnostics of its scan, then those of its parse, then that of
the error that stopped it (`SourceText.diagnostics_run`). Only the first two are
counted for the outcome, and warnings never are.

The commands part where the standard output cannot be written to. A run notes each
line that it loses and goes on, while a listing breaks off at its first line, with
a code of its own. `CodesAgree` therefore speaks about trees that can be listed
(`Surroundings.CanList`), and `full_output_parts_codes` shows that this cannot be
left out. Settings play no part in this: they are looked for beside the script, so
that all three commands are refused or none is, whatever reader decides it.
-/

namespace TreeScript

/-! ## Outcomes

What can be read off an outcome, and an outcome off the diagnostics. -/

namespace Console

variable (c : Console)

end Console

/-! ## The commands

Each command shows the events of what it reads, and then lists or runs it. Its
code is computed from the count. -/

section Commands

variable {c : Console} (s : SourceText)

end Commands

/-! ## Calls

In front of a command stand its arguments and the settings. Both may refuse it.
-/

namespace Invocation

variable {i : Invocation} {reader : String → Option Config} {w : Surroundings}
  {file : String} (rounds : Nat)

end Invocation

section Codes

variable {reader : String → Option Config} {w : Surroundings} {file : String}
  {s : SourceText} {config : Config} (rounds : Nat) (switches : Switches)

end Codes

end TreeScript
