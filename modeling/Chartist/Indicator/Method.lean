import Chartist.Filter.Exponential
import Chartist.Window.Kernel
import Chartist.Window.Rolling

/-!
# Averaging methods

The four basic averages, chosen by name or by the number of their place in the list.
-/

namespace Chartist

open Window Chartist.Filter

/-- A basic average. -/
inductive AverageMethod where
  | simple
  | exponential
  | smoothed
  | linear
  deriving Repr, DecidableEq

namespace AverageMethod

/-- The methods in the order of their codes. -/
def all : List AverageMethod := [.simple, .exponential, .smoothed, .linear]

def name : AverageMethod → String
  | .simple => "sma"
  | .exponential => "ema"
  | .smoothed => "smma"
  | .linear => "lwma"

variable {α : Type}

/-- The method of a code. -/
def ofCode (code : Nat) : Except (StudyError α) AverageMethod :=
  match all[code]? with
  | some m => .ok m
  | none => .error (.invalidParameter (.unknownMethodCode code))

/-- The method of a name in any case. -/
def ofText (text : String) : Except (StudyError α) AverageMethod :=
  match all.find? (·.name == text.map Char.toLower) with
  | some m => .ok m
  | none => .error (.invalidParameter (.unknownMethod text))

variable [Scalar α]

/-- The average of a series. -/
def apply (method : AverageMethod) (period : Nat) (data : List α) : List α :=
  match method with
  | .simple => rollingMean data period
  | .exponential => smooth (emaAlpha period) data
  | .smoothed => smooth (smmaAlpha period) data
  | .linear => weightedAverage data .linear period

/-- The number of leading values that see less than a full window. -/
def lookback (method : AverageMethod) (period : Nat) : Nat :=
  match method with
  | .simple | .linear => period - 1
  | .exponential | .smoothed => 0

end AverageMethod

end Chartist
