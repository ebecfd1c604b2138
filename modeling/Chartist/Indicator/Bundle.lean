import Chartist.Indicator.OnSeries

/-!
# Indicators with several outputs

A `Bundle` maps a series to several named series of its length. Through a cache all outputs
are computed and kept together as soon as one of them is asked for.
-/

namespace Chartist

open Window Chartist.Filter

/-- An indicator with several outputs. -/
inductive Bundle (α : Type) where
  /-- The distance of two exponential averages, its own average and the rest. -/
  | macd (fast slow signal : Nat)
  /-- A mean with bands at a multiple of the deviation. -/
  | bollinger (period : Nat) (multiplier : α)

namespace Bundle

variable {α : Type} [Scalar α]

open Scalar SeriesIndicator

/-- The least positive normal number, the least multiple of the deviation. -/
def minMultiplier : α := 2.2250738585072014e-308

/-- The parameters are acceptable. -/
def validate : Bundle α → Except (StudyError α) Unit
  | .macd fast slow signal => do
    require (fast < slow) (.notShorter "fast period" fast "slow period" slow)
    let _ ← checkPeriod "period" fast
    let _ ← checkPeriod "period" slow
    let _ ← checkPeriod "period" signal
  | .bollinger period multiplier => do
    let _ ← checkRange "multiplier" multiplier minMultiplier 100
    let _ ← checkPeriod "period" period

/-- The indicator, if its parameters are acceptable. -/
def checked (b : Bundle α) : Except (StudyError α) (Bundle α) := do
  b.validate
  return b

def name : Bundle α → String
  | .macd .. => "MACD"
  | .bollinger .. => "BB"

/-- The text of the parameters. -/
def params : Bundle α → String
  | .macd fast slow signal => s!"{fast},{slow},{signal}"
  | .bollinger period multiplier => s!"{period},{text multiplier}"

/-- The number of leading values that fill the time until the formula applies. -/
def lookback : Bundle α → Nat
  | .macd .. => 0
  | .bollinger period _ => period - 1

/-- The names of the outputs. -/
def names : Bundle α → List String
  | .macd .. => ["macd", "signal", "histogram"]
  | .bollinger .. => ["upper", "middle", "lower", "percent_b", "bandwidth"]

/-- The values of two series subtracted one by one. -/
def difference (xs ys : Series α) : Series α := List.zipWith (· - ·) xs ys

/-- Where a value lies between two bands: 0 on the lower one, 1 on the upper one, and half
way where the bands touch. -/
def percentB (x upper lower : α) : α :=
  let width := upper - lower
  if lt 0 width then (x - lower) / width else 0.5

/-- The distance of two bands as a part of their middle; zero for a middle of zero. -/
def bandwidth (upper middle lower : α) : α :=
  if eq middle 0 then 0 else (upper - lower) / middle

/-- The five lines for a series, its means and its deviations. -/
def bands (multiplier : α) (data middle deviation : Series α) : List (String × Series α) :=
  let upper := List.zipWith (fun m s => m + multiplier * s) middle deviation
  let lower := List.zipWith (fun m s => m - multiplier * s) middle deviation
  [("upper", upper), ("middle", middle), ("lower", lower),
    ("percent_b", List.zipWith (fun x (u, l) => percentB x u l) data (upper.zip lower)),
    ("bandwidth", List.zipWith (fun m (u, l) => bandwidth u m l) middle (upper.zip lower))]

/-- The outputs for a series, by name. -/
def outputs (b : Bundle α) (data : Series α) : List (String × Series α) :=
  match b with
  | .macd fast slow signal =>
    let line := difference ((ema fast).values data) ((ema slow).values data)
    let average := (ema signal).values line
    [("macd", line), ("signal", average), ("histogram", difference line average)]
  | .bollinger period multiplier =>
    bands multiplier data ((SeriesIndicator.simple period).values data)
      ((SeriesIndicator.deviation period).values data)

variable [Fingerprint α]

/-- The key of all outputs for a series together. -/
def key (b : Bundle α) (data : Series α) : CacheKey := ⟨b.name, b.params, .ofSeries data⟩

/-- The outputs for a series, their parts from the cache where they are kept. -/
def cachedOutputs (b : Bundle α) (data : Series α) : Cached α (List (String × Series α)) :=
  match b with
  | .macd fast slow signal => do
    let fastLine ← (ema fast).cached data
    let slowLine ← (ema slow).cached data
    let line := difference fastLine slowLine
    let average ← (ema signal).cached line
    return [("macd", line), ("signal", average), ("histogram", difference line average)]
  | .bollinger period multiplier => do
    let middle ← (SeriesIndicator.simple period).cached data
    let deviation ← (SeriesIndicator.deviation period).cached data
    return bands multiplier data middle deviation

/-- Keeps every output under its own key. -/
def storeAll (key : CacheKey) : List (String × Series α) → Cached α Unit
  | [] => return
  | (name, series) :: rest => do
    Cached.keep (key.withOutput name) series
    storeAll key rest

/-- One output for a series, from the cache where it is kept; nothing for an unknown name.
The first output asked for brings all of them into the cache. -/
def cachedOutput (b : Bundle α) (data : Series α) (output : String) :
    Cached α (Option (Series α)) := do
  if b.names.contains output then
    match ← Cached.find ((b.key data).withOutput output) with
    | some hit => return some hit
    | none =>
      let all ← b.cachedOutputs data
      storeAll (b.key data) all
      return all.lookup output
  else return none

end Bundle

end Chartist
