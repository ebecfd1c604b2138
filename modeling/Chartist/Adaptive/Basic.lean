import Chartist.Filter.Exponential
import Chartist.Window.Rolling

/-!
# Adaptive smoothing factors

A rule maps a series to one smoothing factor per value, from how much of its movement was
progress (`efficiencyRatio`), which way it moved (`momentum`), or how its recent volatility
compares with the longer one. Every factor goes through `clampAlpha`, so it lies between 0
and 1 whatever the statistics were.
-/

namespace Chartist.Adaptive

variable {α : Type} [Scalar α]

open Scalar Window Chartist.Filter

/-- Below this a path or a window counts as without movement. -/
def epsilon : α := 1e-9

/-- A factor moved into `[0, 1]`; what is no finite number holds the output. -/
def clampAlpha (alpha : α) : α := if isFinite alpha then clamp alpha 0 1 else 0

/-- The changes between neighbours. -/
def changes (data : List α) : List α := List.zipWith (fun old new => new - old) data (data.drop 1)

/-- The changes inside the window of `length` changes that ends at index `i`, given all
changes. The change into index `i` is the one with index `i - 1`. -/
def changesUpTo (all : List α) (i length : Nat) : List α :=
  (all.drop (i - length)).take (i - (i - length))

/-- The distance covered over a window of changes as a part of the path walked. -/
def efficiencyRatio (data : List α) (period : Nat) : List α :=
  let steps := (changes data).map Scalar.abs
  (List.range data.length).map fun i =>
    let path := sum (changesUpTo steps i period)
    let distance := abs (data[i]?.getD nan - data[i - period]?.getD nan)
    clamp (distance / maxNum path epsilon) 0 1

/-- The factor between the constants of a slow and a fast average that an efficiency ratio
selects, squared. -/
def kamaAlpha (er : α) (fast slow : Nat) : α :=
  let x := er * (emaAlpha fast - emaAlpha slow) + emaAlpha slow
  clampAlpha (x * x)

/-- The upward part of a change. -/
def gain (change : α) : α := if lt 0 change then change else 0

/-- The downward part of a change, as a positive number. -/
def loss (change : α) : α := if lt 0 change then 0 else -change

/-- The balance of gains and losses over a window of changes, between -1 and 1. -/
def momentum (data : List α) (length : Nat) : List α :=
  let steps := changes data
  let gains := steps.map gain
  let losses := steps.map loss
  (List.range data.length).map fun i =>
    let up := sum (changesUpTo gains i length)
    let down := sum (changesUpTo losses i length)
    let total := up + down
    if lt epsilon total then clamp ((up - down) / total) (-1) 1 else 0

/-- The quotients of two series; 0 where the second one is flat. -/
def ratio (short long : List α) : List α :=
  List.zipWith (fun s l => if lt epsilon l then s / l else 0) short long

/-- The deviation of a short window over that of a long one. -/
def deviationRatio (data : List α) (short long : Nat) : List α :=
  ratio (rollingDeviation data short) (rollingDeviation data long)

/-- The mean of a short window over that of a long one. -/
def meanRatio (data : List α) (short long : Nat) : List α :=
  ratio (rollingMean data short) (rollingMean data long)

/-- The factors `f` gives for a series, with 1 in place of the first `lookback` of them. -/
def afterLookback (lookback : Nat) (f : α → α) (xs : List α) : List α :=
  xs.mapIdx fun i x => if i < lookback then 1 else f x

/-- The factors that scale an exponential average by a ratio. -/
def ratioAlphas (ratios : List α) (period lookback : Nat) : List α :=
  let base : α := emaAlpha period
  afterLookback lookback (fun r => clampAlpha (r * base)) ratios

end Chartist.Adaptive
