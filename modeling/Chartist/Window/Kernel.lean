import Chartist.Window.Basic

/-!
# Kernels and medians

A kernel gives every place of a window a weight that depends on the length of the window
alone, the oldest place first. While there is less history than a full window, the weights
are those of the shorter one. `movingMedian` is the middle value of each window instead.
-/

namespace Chartist.Window

/-- How the places of a window are weighted. -/
inductive Kernel where
  /-- Equal weights. -/
  | uniform
  /-- 1, 2, …, n, the newest place heaviest. -/
  | linear
  /-- Rising to the middle, then falling. -/
  | triangular
  /-- The sine of equal steps between zero and π. -/
  | sine
  /-- The binomial coefficients of n - 1. -/
  | binomial
  deriving Repr, DecidableEq

namespace Kernel

def all : List Kernel := [.uniform, .linear, .triangular, .sine, .binomial]

def name : Kernel → String
  | .uniform => "uniform"
  | .linear => "linear"
  | .triangular => "triangular"
  | .sine => "sine"
  | .binomial => "binomial"

/-- The longest window of the binomial kernel; beyond it the weights leave the range of
binary64 numbers. -/
def maxBinomialLength : Nat := 512

variable {α : Type} [Scalar α]

open Scalar

/-- The kernel can weight windows of a length. -/
def validate (k : Kernel) (length : Nat) : Except (StudyError α) Unit := do
  let _ ← checkPeriod "kernel" length
  if k = .binomial ∧ maxBinomialLength < length then
    .error (.outOfRange "length" (ofCount length) 1 (ofCount maxBinomialLength))
  else .ok ()

/-- The weights of the places `k`, `k + 1`, … of a binomial window with `left` places to go,
the first of them being `w`. -/
def binomialFrom (w : α) (k : Nat) : Nat → List α
  | 0 => []
  | left + 1 => w :: binomialFrom (w * ofCount left / ofCount (k + 1)) (k + 1) left

/-- The weights of a window, oldest place first. -/
def weights (k : Kernel) (length : Nat) : List α :=
  match k with
  | .uniform => List.replicate length 1
  | .linear => (List.range length).map fun i => ofCount (i + 1)
  | .triangular => (List.range length).map fun i => ofCount (min (i + 1) (length - i))
  | .sine => (List.range length).map fun i => sin (pi * ofCount (i + 1) / (ofCount length + 1))
  | .binomial => binomialFrom 1 0 length

/-- The weighted average of the values of one window. -/
def average (k : Kernel) (xs : List α) : α :=
  let w : List α := k.weights xs.length
  dot xs w / sum w

end Kernel

variable {α : Type} [Scalar α]

open Scalar

/-- The weighted average of the window at every index. -/
def weightedAverage (data : List α) (kernel : Kernel) (length : Nat) : List α :=
  rolling kernel.average data length

/-- The middle value of a list in order, or the mean of its two middle values. -/
def middle (sorted : List α) : α :=
  let half := sorted.length / 2
  if sorted.length % 2 = 1 then sorted[half]?.getD nan
  else (sorted[half - 1]?.getD nan + sorted[half]?.getD nan) / 2

/-- The median of a list. -/
def median (xs : List α) : α := middle (xs.mergeSort before)

/-- The median of the window at every index. -/
def movingMedian (data : List α) (length : Nat) : List α := rolling median data length

end Chartist.Window
