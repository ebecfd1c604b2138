import Chartist.Scalar

/-!
# The Kalman level filter

An estimate of a level that drifts, from measurements with noise. The estimate starts at
the first measurement with variance one.
-/

namespace Chartist.Filter

/-- An estimate and its variance. -/
structure Kalman (α : Type) where
  level : α
  variance : α
  deriving Repr

namespace Kalman

variable {α : Type} [Scalar α]

/-- The estimate after a measurement, with drift variance `q` and noise variance `r`. -/
def next (q r : α) (s : Kalman α) (price : α) : Kalman α :=
  let predicted := s.variance + q
  let gain := predicted / (predicted + r)
  ⟨s.level + gain * (price - s.level), (1 - gain) * predicted⟩

/-- The levels that follow a state. -/
def levelsFrom (q r : α) : Kalman α → List α → List α
  | _, [] => []
  | s, price :: rest =>
    let s := next q r s price
    s.level :: levelsFrom q r s rest

/-- The estimated level at every measurement. -/
def levels (q r : α) : List α → List α
  | [] => []
  | first :: rest => first :: levelsFrom q r ⟨first, 1⟩ rest

end Kalman

end Chartist.Filter
