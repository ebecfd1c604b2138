import Chartist.Adaptive.Rule
import Chartist.Cache
import Chartist.Filter.Kalman
import Chartist.Filter.Laguerre
import Chartist.Filter.Linear
import Chartist.Indicator.Method
import Chartist.Indicator.Rsi

/-!
# Indicators on one series

A `SeriesIndicator` maps a series to one of the same length. `values` says what it computes;
`cached` computes the same through a cache, where a cascade shares its stages with every
other user of the same average. `validate` checks the parameters, once and beforehand.
-/

namespace Chartist

open Window Chartist.Filter Adaptive

/-- An indicator that reads one series. -/
inductive SeriesIndicator (α : Type) where
  | simple (period : Nat)
  | exponential (period : Nat) (alpha : α)
  | smoothed (period : Nat)
  | weighted (kernel : Kernel) (period : Nat)
  | median (period : Nat)
  | cascade (kind : Cascade) (period : Nat)
  | average (method : AverageMethod) (period : Nat)
  | efficiencyAverage (period fast slow : Nat)
  | momentumAverage (period length : Nat)
  | pole (design : PoleDesign) (period : Nat)
  | laguerre (gamma : α)
  | kalman (processNoise measurementNoise : α)
  | rsi (period : Nat)
  | laguerreRsi (gamma : α)
  | momentum (period : Nat)
  | rank (window : Window) (percent : Bool)
  | deviation (period : Nat)

namespace SeriesIndicator

variable {α : Type} [Scalar α]

open Scalar

/-- The exponential average of a period. -/
def ema (period : Nat) : SeriesIndicator α := .exponential period (emaAlpha period)

/-- The rank within a window of `period` values, from `minHistory` values on. -/
def rankOver (period minHistory : Nat) (percent : Bool) : SeriesIndicator α :=
  .rank ((⟨period, 1⟩ : Window).withMinHistory minHistory) percent

/-- A damping factor of `[0, 1)`. -/
def checkGamma (gamma : α) : Except (StudyError α) Unit :=
  if le 0 gamma && lt gamma 1 then .ok () else .error (.outOfRange "gamma" gamma 0 1)

/-- A positive finite number. -/
def checkPositive (name : String) (value : α) : Except (StudyError α) Unit :=
  require (isPositive value) (.notPositive name value)

/-- The parameters are acceptable. -/
def validate : SeriesIndicator α → Except (StudyError α) Unit
  | .simple period | .smoothed period | .median period | .average _ period | .rsi period
  | .momentum period | .deviation period => do
    let _ ← checkPeriod "period" period
  | .exponential period alpha => do
    let _ ← checkPeriod "period" period
    let _ ← checkRange "alpha" alpha 0 1
  | .weighted kernel period => kernel.validate period
  | .cascade kind period => do
    kind.validate
    let _ ← checkPeriod "period" period
  | .efficiencyAverage period fast slow => (Rule.efficiency period fast slow).validate
  | .momentumAverage period length => (Rule.momentum period length).validate
  | .pole design period => do
    let _ : LinearFilter α ← design.checkedFilter period
  | .laguerre gamma | .laguerreRsi gamma => checkGamma gamma
  | .kalman processNoise measurementNoise => do
    checkPositive "process_noise" processNoise
    checkPositive "measurement_noise" measurementNoise
  | .rank window _ => do
    let _ ← checkPeriod "window" window.length

/-- The indicator, if its parameters are acceptable. -/
def checked (i : SeriesIndicator α) : Except (StudyError α) (SeriesIndicator α) := do
  i.validate
  return i

def name : SeriesIndicator α → String
  | .simple _ => "SMA"
  | .exponential _ _ => "EMA"
  | .smoothed _ => "SMMA"
  | .weighted .uniform _ => "UWMA"
  | .weighted .linear _ => "LWMA"
  | .weighted .triangular _ => "TRIMA"
  | .weighted .sine _ => "SINEWMA"
  | .weighted .binomial _ => "BINOMIALMA"
  | .median _ => "MEDIAN"
  | .cascade .double _ => "DEMA"
  | .cascade .triple _ => "TEMA"
  | .cascade (.deep _) _ => "NEMA"
  | .average _ _ => "MA"
  | .efficiencyAverage _ _ _ => "KAMA"
  | .momentumAverage _ _ => "VIDYA"
  | .pole .superSmoother _ => "SUPERSMOOTHER"
  | .pole .butterworth2 _ => "BUTTERWORTH2"
  | .pole .butterworth3 _ => "BUTTERWORTH3"
  | .laguerre _ => "LAGUERRE"
  | .kalman _ _ => "KALMAN"
  | .rsi _ => "RSI"
  | .laguerreRsi _ => "LRSI"
  | .momentum _ => "CMO"
  | .rank _ _ => "RANK"
  | .deviation _ => "STDDEV"

/-- The text of the parameters. -/
def params : SeriesIndicator α → String
  | .simple period | .smoothed period | .weighted _ period | .median period
  | .pole _ period | .rsi period | .momentum period | .deviation period => toString period
  | .exponential period alpha => s!"{period},{text alpha}"
  | .cascade kind period => s!"{period},{kind.depth}"
  | .average method period => s!"{method.name},{period}"
  | .efficiencyAverage period fast slow => s!"{period},{fast},{slow}"
  | .momentumAverage period length => s!"{period},{length}"
  | .laguerre gamma | .laguerreRsi gamma => text gamma
  | .kalman processNoise measurementNoise =>
    s!"{text processNoise},{text measurementNoise}"
  | .rank window percent => s!"{window.length},{window.minHistory},{percent}"

/-- The number of leading values that fill the time until the formula applies. -/
def lookback : SeriesIndicator α → Nat
  | .simple period | .weighted _ period | .median period | .deviation period => period - 1
  | .average method period => method.lookback period
  | .efficiencyAverage period _ _ | .rsi period | .momentum period => period
  | .momentumAverage _ length => length
  | .pole design period => (design.filter period : LinearFilter α).order
  | .rank window _ => window.minHistory - 1
  | .exponential _ _ | .smoothed _ | .cascade _ _ | .laguerre _ | .kalman _ _
  | .laguerreRsi _ => 0

/-- The ranks of the values of a series, each within its window. -/
def ranks (window : Window) (percent : Bool) (data : List α) : List α :=
  let degenerate : α := if percent then 50 else 0.5
  (List.range data.length).map fun i =>
    let x := data[i]?.getD nan
    let f (xs : List α) : α :=
      if percent then percentRank xs x degenerate else Window.rank xs x degenerate
    (window.guarded f data i).getD degenerate

/-- The output for a series. -/
def values (i : SeriesIndicator α) (data : Series α) : Series α :=
  match i with
  | .simple period => rollingMean data period
  | .exponential _ alpha => smooth alpha data
  | .smoothed period => smooth (smmaAlpha period) data
  | .weighted kernel period => weightedAverage data kernel period
  | .median period => movingMedian data period
  | .cascade kind period => combine (stages (emaAlpha period) kind.depth data) kind.weights
  | .average method period => method.apply period data
  | .efficiencyAverage period fast slow =>
    smoothBy data ((Rule.efficiency period fast slow).alphas data)
  | .momentumAverage period length => smoothBy data ((Rule.momentum period length).alphas data)
  | .pole design period => (design.filter period).apply data
  | .laguerre gamma => (Laguerre.pass gamma data).map Laguerre.filter
  | .kalman processNoise measurementNoise => Kalman.levels processNoise measurementNoise data
  | .rsi period => Rsi.values period data
  | .laguerreRsi gamma => (Laguerre.pass gamma data).map Laguerre.strength
  | .momentum period => (Adaptive.momentum data period).map (· * 100)
  | .rank window percent => ranks window percent data
  | .deviation period => rollingDeviation data period

variable [Fingerprint α]

/-- The key of the output for a series. -/
def key (i : SeriesIndicator α) (data : Series α) : CacheKey :=
  ⟨i.name, i.params, .ofSeries data⟩

/-- The stages of a cascade, each of them fetched. -/
def cachedStages (period : Nat) : Nat → Series α → Cached α (List (Series α))
  | 0, _ => return []
  | depth + 1, data => do
    let average : SeriesIndicator α := ema period
    let stage ← Cached.fetch (average.key data) (pure (average.values data))
    return stage :: (← cachedStages period depth stage)

/-- The output for a series, from the cache where it is kept. -/
def cached (i : SeriesIndicator α) (data : Series α) : Cached α (Series α) :=
  Cached.fetch (i.key data) <| match i with
    | .cascade kind period => do
      return combine (← cachedStages period kind.depth data) kind.weights
    | _ => return i.values data

end SeriesIndicator

end Chartist
