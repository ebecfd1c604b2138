import Chartist.Decimal.Power
import Chartist.Settings.Basic
import Chartist.Toml.Writer

/-!
# Settings as a document

All settings written out, a table for each section.
-/

namespace Chartist.Settings

/-- A switch in a document. -/
def switchText (b : Bool) : String := if b then "true" else "false"

/-- The document of some settings. A count that is no integer of 64 bits has no place in
one. -/
def document? (s : Settings) : Option String :=
  if Decimal.isInt64 s.evaluation.precision then
    some <| "\n".intercalate [
      Toml.tableText "app" [("name", Toml.quote s.name)],
      Toml.tableText "logging" [("level", Toml.quote s.logging.level),
        ("format", Toml.quote s.logging.format.name)],
      Toml.tableText "cache" [("enabled", switchText s.caching)],
      Toml.tableText "evaluation" [
        ("default_source", Toml.quote s.evaluation.defaultSource.name),
        ("precision", toString s.evaluation.precision)]]
  else none

end Chartist.Settings
