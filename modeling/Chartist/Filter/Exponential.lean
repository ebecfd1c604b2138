import Chartist.Scalar

/-!
# Exponential smoothing

The output moves towards each new value by a fraction of their distance, and starts at the
first value. The fraction is one constant, or one number per value; `smooth` and
`smoothBy` do the same step and differ only in where its fraction comes from.
-/

namespace Chartist.Filter

variable {α : Type} [Scalar α]

open Scalar

/-- The fraction of an exponential average, `2 / (n + 1)`. -/
def emaAlpha (period : Nat) : α := 2 / (ofCount period + 1)

/-- The fraction of a smoothed average, `1 / n`. -/
def smmaAlpha (period : Nat) : α := 1 / ofCount period

/-- One step of the output towards a value. -/
@[inline] def approach (alpha level value : α) : α := level + alpha * (value - level)

/-- The outputs that follow `level`, with one fraction throughout. -/
def smoothFrom (alpha : α) : α → List α → List α
  | _, [] => []
  | level, value :: rest =>
    let next := approach alpha level value
    next :: smoothFrom alpha next rest

/-- Exponential smoothing with a constant fraction. -/
def smooth (alpha : α) : List α → List α
  | [] => []
  | first :: rest => first :: smoothFrom alpha first rest

/-- The outputs that follow `level`, with a fraction for each value. -/
def smoothByFrom : α → List α → List α → List α
  | level, value :: rest, alpha :: alphas =>
    let next := approach alpha level value
    next :: smoothByFrom next rest alphas
  | _, _, _ => []

/-- Exponential smoothing with a fraction for each value; the first fraction has no use. -/
def smoothBy : List α → List α → List α
  | [], _ => []
  | first :: rest, alphas => first :: smoothByFrom first rest (alphas.drop 1)

end Chartist.Filter
