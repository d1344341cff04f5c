/-!
# Settings

What the user can choose, with the choices that hold if nothing is said.
-/

namespace TreeScript

/-- What the log shows. -/
structure LogSettings where
  /-- Whether it shows the progress of the stages. -/
  debug : Bool := false
deriving Repr, DecidableEq, Inhabited

/-- How diagnostics are shown. -/
structure DiagnosticSettings where
  /-- Whether they are coloured. -/
  color : Bool := true
  /-- Whether they quote the line they speak about. -/
  sourceContext : Bool := true
deriving Repr, DecidableEq, Inhabited

/-- **All settings.** -/
structure Config where
  /-- What the log shows. -/
  log : LogSettings := {}
  /-- How diagnostics are shown. -/
  diagnostics : DiagnosticSettings := {}
deriving Repr, DecidableEq, Inhabited

end TreeScript
