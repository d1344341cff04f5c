import TreeScript.Config.Basic
import TreeScript.Toml.Document

/-!
# Reading settings

Settings are read from a configuration text. Keys that mean nothing are ignored,
and what is not said keeps its default; but a setting must be a truth value, and
the text must follow the format as a whole.

A section may also be an array of its settings, in order.
-/

namespace TreeScript.Config

open Toml (Value)

/-- A truth value. -/
def flag : Value → Option Bool
  | .boolean b => some b
  | _ => none

/-- A setting that may be missing. -/
def setting (default : Bool) : Option Value → Option Bool
  | none => some default
  | some v => flag v

/-- **The settings of a section**: given the name of each setting, the value
that stands for it, or none. A date holds no settings. -/
def settingsOf (names : List String) : Value → Option (List (Option Value))
  | .table es => some (names.map fun k => es.lookup k)
  | .array items => some (names.zipIdx.map fun (_, i) => items[i]?)
  | .dateTime => some (names.map fun _ => none)
  | _ => none

/-- What the log shows, as a section says. -/
def logSettings (v : Value) : Option LogSettings := do
  match ← settingsOf ["debug"] v with
  | [debug] => return ⟨← setting false debug⟩
  | _ => none

/-- How diagnostics are shown, as a section says. -/
def diagnosticSettings (v : Value) : Option DiagnosticSettings := do
  match ← settingsOf ["color", "source-context"] v with
  | [color, sourceContext] =>
    return ⟨← setting true color, ← setting true sourceContext⟩
  | _ => none

/-- A section that may be missing. -/
def optionalSection {α : Type} (default : α) (read : Value → Option α) :
    Option Value → Option α
  | none => some default
  | some v => read v

/-- **Reads settings** from a configuration text. -/
def read (s : String) : Option Config := do
  let es ← Toml.read s
  let log ← optionalSection {} logSettings (es.lookup "log")
  let diagnostics ←
    optionalSection {} diagnosticSettings (es.lookup "diagnostics")
  return ⟨log, diagnostics⟩

end TreeScript.Config
