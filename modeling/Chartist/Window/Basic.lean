import Chartist.Error
import Chartist.Window.Lanes

/-!
# Trailing windows

The window of a length that ends at an index holds the last `length` values up to that
index, or all of them while there are fewer. Statistics of a window are statistics of the
list `trailing data stop length`. A `Window` adds a guard: below a given history it gives
no answer, and the caller decides what stands there instead.
-/

namespace Chartist.Window

/-- How many values the window of `length` that ends at `stop` holds. -/
def span (stop length : Nat) : Nat := min length (stop + 1)

/-- The index of the first value of a window. -/
def start (stop length : Nat) : Nat := stop + 1 - span stop length

variable {α : Type}

/-- The values of a window, oldest first. -/
def trailing (data : List α) (stop length : Nat) : List α :=
  (data.drop (start stop length)).take (span stop length)

/-- A statistic of the window at every index. -/
@[specialize] def rolling (f : List α → β) (data : List α) (length : Nat) : List β :=
  (List.range data.length).map fun i => f (trailing data i length)

variable [Scalar α]

open Scalar

/-- The arithmetic mean of a list. -/
def mean (xs : List α) : α := sum xs / ofCount xs.length

/-- The population variance of a list: its mean squared distance from the mean. -/
def variance (xs : List α) : α := sumSqDev xs (mean xs) / ofCount xs.length

/-- The population standard deviation of a list. -/
def deviation (xs : List α) : α := sqrt (variance xs)

/-- The greatest value of a window that is not empty. -/
def highest (xs : List α) : α := (extent xs).elim nan (·.2)

/-- The least value of a window that is not empty. -/
def lowest (xs : List α) : α := (extent xs).elim nan (·.1)

/-- Where `x` lies between the least and the greatest value of a window: 0 at the least, 1
at the greatest. A window without a range gives `degenerate`. -/
def rank (xs : List α) (x degenerate : α) : α :=
  match extent xs with
  | some (low, high) =>
    if lt low high then clamp ((x - low) / (high - low)) 0 1 else degenerate
  | none => degenerate

/-- `rank` on a scale from 0 to 100. -/
def percentRank (xs : List α) (x degenerate : α) : α :=
  match extent xs with
  | some (low, high) =>
    if lt low high then clamp (100 * (x - low) / (high - low)) 0 100 else degenerate
  | none => degenerate

/-- At least `minHistory` values exist up to and including index `stop`. -/
def hasHistory (stop minHistory : Nat) : Bool := minHistory ≤ stop + 1

end Window

/-- A window length with the least history that it answers on. -/
structure Window where
  length : Nat
  minHistory : Nat
  deriving Repr, DecidableEq

namespace Window

variable {α : Type}

/-- The window of `length` that answers on any history. -/
def new (length : Nat) : Except (StudyError α) Window := do
  return ⟨← checkPeriod "window" length, 1⟩

/-- The same window, answering from `minHistory` values on. -/
def withMinHistory (w : Window) (minHistory : Nat) : Window :=
  { w with minHistory := max minHistory 1 }

/-- The window of `length` that answers when it is full. -/
def full (length : Nat) : Except (StudyError α) Window := do
  return (← new length).withMinHistory length

/-- The window answers at index `stop`. -/
def isReady (w : Window) (stop : Nat) : Bool := hasHistory stop w.minHistory

/-- A statistic of the window that ends at `stop`, where the window answers. -/
def guarded (w : Window) (f : List α → β) (data : List α) (stop : Nat) : Option β :=
  if w.isReady stop then some (f (trailing data stop w.length)) else none

end Chartist.Window
