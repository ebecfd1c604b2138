import Chartist.Error
import Chartist.Filter.Cascade

/-!
# Linear filters

A linear filter answers a weighted sum of the last inputs and of its own last outputs. The
first `order` values pass through unchanged. `superSmoother`, `butterworth2` and
`butterworth3` derive the weights of low-pass filters from a period; for constant input all
of them have gain one.
-/

namespace Chartist.Filter

/-- The weights of a linear filter: `feedforward` on the inputs, newest first, `feedback` on
the outputs before, newest first. -/
structure LinearFilter (α : Type) where
  feedforward : List α
  feedback : List α
  deriving Repr

namespace LinearFilter

variable {α : Type} [Scalar α]

open Scalar

/-- A filter with finite weights, at least one of them on the inputs. -/
def checked (f : LinearFilter α) : Except (StudyError α) (LinearFilter α) := do
  require (!f.feedforward.isEmpty) .noFeedforward
  require ((f.feedforward ++ f.feedback).all isFinite) .infiniteCoefficient
  return f

/-- The radius of the two poles of a period, and twice its product with the cosine. -/
def twoPoleTerms (period : Nat) : α × α :=
  let arg : α := 1.414 * pi / ofCount period
  let a := exp (-arg)
  (a, 2 * a * cos arg)

/-- The two-pole super smoother. -/
def superSmoother (period : Nat) : LinearFilter α :=
  let (a, b) := twoPoleTerms period
  let c2 := b
  let c3 := -a * a
  let c1 := 1 - c2 - c3
  ⟨[c1 / 2, c1 / 2], [c2, c3]⟩

/-- The two-pole Butterworth filter. -/
def butterworth2 (period : Nat) : LinearFilter α :=
  let (a, b) := twoPoleTerms period
  let c2 := b
  let c3 := -a * a
  let c1 := (1 - b + a * a) / 4
  ⟨[c1, 2 * c1, c1], [c2, c3]⟩

/-- The three-pole Butterworth filter. -/
def butterworth3 (period : Nat) : LinearFilter α :=
  let p : α := ofCount period
  let a := exp (-pi / p)
  let b := 2 * a * cos (1.738 * pi / p)
  let c := a * a
  let c2 := b + c
  let c3 := -(c + b * c)
  let c4 := c * c
  let c1 := (1 - b + c) * (1 - c) / 8
  ⟨[c1, 3 * c1, 3 * c1, c1], [c2, c3, c4]⟩

/-- The number of values that pass through. -/
def order (f : LinearFilter α) : Nat := max (f.feedforward.length - 1) f.feedback.length

/-- The gain for constant input once the filter has settled. -/
def dcGain (f : LinearFilter α) : α :=
  runningSum f.feedforward / (1 - runningSum f.feedback)

/-- A weighted sum of the newest of the values given, newest first. -/
def tap (weights newestFirst : List α) : α :=
  runningSum (List.zipWith (· * ·) weights newestFirst)

/-- The outputs that follow, given the inputs and outputs so far, newest first, and the
number of values that still pass through. -/
def applyFrom (f : LinearFilter α) : Nat → List α → List α → List α → List α
  | _, _, _, [] => []
  | passing + 1, inputs, outputs, x :: rest =>
    x :: f.applyFrom passing (x :: inputs) (x :: outputs) rest
  | 0, inputs, outputs, x :: rest =>
    let y := tap f.feedforward (x :: inputs) + tap f.feedback outputs
    y :: f.applyFrom 0 (x :: inputs) (y :: outputs) rest

/-- The output for a whole input. -/
def apply (f : LinearFilter α) (data : List α) : List α := f.applyFrom f.order [] [] data

end LinearFilter

/-- The low-pass designs. -/
inductive PoleDesign where
  | superSmoother
  | butterworth2
  | butterworth3
  deriving Repr, DecidableEq

namespace PoleDesign

def all : List PoleDesign := [.superSmoother, .butterworth2, .butterworth3]

def name : PoleDesign → String
  | .superSmoother => "super_smoother"
  | .butterworth2 => "butterworth2"
  | .butterworth3 => "butterworth3"

variable {α : Type} [Scalar α]

/-- The filter of a design at a period. -/
def filter : PoleDesign → Nat → LinearFilter α
  | .superSmoother => LinearFilter.superSmoother
  | .butterworth2 => LinearFilter.butterworth2
  | .butterworth3 => LinearFilter.butterworth3

/-- The filter of a design at a period of at least two. -/
def checkedFilter (design : PoleDesign) (period : Nat) :
    Except (StudyError α) (LinearFilter α) := do
  require (2 ≤ period) (.shortFilterPeriod period)
  (design.filter period).checked

end PoleDesign

end Chartist.Filter
