import Chartist.Bar

/-!
# Settings

What can be set for a run of the program, by section, with the defaults.
-/

namespace Chartist

/-- How log lines are written. -/
inductive LogFormat where
  | pretty
  | json
  deriving Repr, DecidableEq

namespace LogFormat

def all : List LogFormat := [.pretty, .json]

def name : LogFormat → String
  | .pretty => "pretty"
  | .json => "json"

end LogFormat

/-- The section about log lines. -/
structure LogSettings where
  level : String := "info"
  format : LogFormat := .pretty
  deriving Repr, DecidableEq

/-- The section about evaluations. -/
structure EvaluationSettings where
  /-- The price for indicators that read one and are not told which. -/
  defaultSource : PriceSource := .close
  /-- The decimal places of a table. -/
  precision : Nat := 4
  deriving Repr, DecidableEq

/-- All settings. -/
structure Settings where
  /-- The name of the program. -/
  name : String := "barwise"
  logging : LogSettings := {}
  /-- Series are kept in a cache during an evaluation. -/
  caching : Bool := true
  evaluation : EvaluationSettings := {}
  deriving Repr, DecidableEq

end Chartist
