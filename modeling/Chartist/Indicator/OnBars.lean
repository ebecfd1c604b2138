import Chartist.Adaptive.Fractal
import Chartist.Adaptive.Rule
import Chartist.Cache

/-!
# Indicators on bars

A `BarIndicator` reads whole bars. As with series, `values` says what it computes, and
`cached` computes it through a cache, sharing prices and true ranges.
-/

namespace Chartist

open Window Chartist.Filter Adaptive

/-- What drives a volatility-adjusted average. -/
inductive VolatilityMeasure where
  /-- The deviation of the price. -/
  | deviation
  /-- The true range of the bars. -/
  | trueRange
  deriving Repr, DecidableEq

namespace VolatilityMeasure

def all : List VolatilityMeasure := [.deviation, .trueRange]

def name : VolatilityMeasure → String
  | .deviation => "std_dev"
  | .trueRange => "atr"

/-- The name inside parameter lists. -/
def label : VolatilityMeasure → String
  | .deviation => "StdDev"
  | .trueRange => "Atr"

end VolatilityMeasure

/-- A line of a channel. -/
inductive ChannelLine where
  | upper
  | lower
  | middle
  deriving Repr, DecidableEq

namespace ChannelLine

def all : List ChannelLine := [.upper, .lower, .middle]

def name : ChannelLine → String
  | .upper => "upper"
  | .lower => "lower"
  | .middle => "middle"

end ChannelLine

/-- An indicator that reads bars. -/
inductive BarIndicator where
  | trueRange
  | averageTrueRange (period : Nat)
  | volatilityAverage (period short long : Nat) (measure : VolatilityMeasure)
      (source : PriceSource)
  | fractalAverage (period : Nat) (source : PriceSource)
  | stochastic (period : Nat)
  | donchian (period : Nat) (line : ChannelLine)
  deriving Repr, DecidableEq

namespace BarIndicator

variable {α : Type} [Scalar α]

open Scalar

/-- The parameters are acceptable. -/
def validate : BarIndicator → Except (StudyError α) Unit
  | .trueRange => .ok ()
  | .averageTrueRange period | .stochastic period | .donchian period _ => do
    let _ ← checkPeriod "period" period
  | .volatilityAverage period short long _ _ => (Rule.volatility period short long).validate
  | .fractalAverage period _ => checkFractalPeriod period

/-- The indicator, if its parameters are acceptable. -/
def checked (i : BarIndicator) : Except (StudyError α) BarIndicator := do
  i.validate
  return i

def name : BarIndicator → String
  | .trueRange => "TR"
  | .averageTrueRange _ => "ATR"
  | .volatilityAverage .. => "VAMA"
  | .fractalAverage .. => "FRAMA"
  | .stochastic _ => "STOCHK"
  | .donchian .. => "DONCHIAN"

/-- The text of the parameters. -/
def params : BarIndicator → String
  | .trueRange => ""
  | .averageTrueRange period | .stochastic period => toString period
  | .volatilityAverage period short long measure source =>
    s!"{period},{short},{long},{measure.label},{source.name}"
  | .fractalAverage period source => s!"{period},{source.name}"
  | .donchian period line => s!"{period},{line.name}"

/-- The number of leading values that fill the time until the formula applies. -/
def lookback : BarIndicator → Nat
  | .trueRange | .averageTrueRange _ => 0
  | .volatilityAverage _ _ long _ _ => long
  | .fractalAverage period _ | .stochastic period | .donchian period _ => period - 1

/-- The smoothing factors of a volatility-adjusted average. -/
def volatilityAlphas (period short long : Nat) (measure : VolatilityMeasure)
    (price trueRanges : Series α) : Series α :=
  match measure with
  | .deviation => (Rule.volatility period short long).alphas price
  | .trueRange => ratioAlphas (meanRatio trueRanges short long) period long

/-- The highest high over a window of bars. -/
def upperLine (bars : Bars α) (period : Nat) : Series α :=
  rollingHighest (bars.price .high) period

/-- The lowest low over a window of bars. -/
def lowerLine (bars : Bars α) (period : Nat) : Series α :=
  rollingLowest (bars.price .low) period

/-- A line of the channel of highest highs and lowest lows. -/
def channelLine (bars : Bars α) (period : Nat) : ChannelLine → Series α
  | .upper => upperLine bars period
  | .lower => lowerLine bars period
  | .middle => List.zipWith (fun u l => (u + l) / 2) (upperLine bars period) (lowerLine bars period)

/-- Where a close lies in a channel, from 0 to 100; 50 in a channel without height. -/
def stochasticValue (close high low : α) : α :=
  if lt low high then clamp (100 * (close - low) / (high - low)) 0 100 else 50

/-- Where each close lies in the channel of its window. -/
def stochasticValues (bars : Bars α) (period : Nat) : Series α :=
  List.zipWith (fun b (high, low) => stochasticValue b.close high low) bars
    ((upperLine bars period).zip (lowerLine bars period))

/-- The output for bars. -/
def values (i : BarIndicator) (bars : Bars α) : Series α :=
  match i with
  | .trueRange => bars.trueRanges
  | .averageTrueRange period => smooth (smmaAlpha period) bars.trueRanges
  | .volatilityAverage period short long measure source =>
    let price := bars.price source
    smoothBy price (volatilityAlphas period short long measure price bars.trueRanges)
  | .fractalAverage period source =>
    smoothBy (bars.price source) (fractalAlphas (bars.price .high) (bars.price .low) period)
  | .stochastic period => stochasticValues bars period
  | .donchian period line => channelLine bars period line

variable [Fingerprint α]

/-- The key of the output for bars. -/
def key (i : BarIndicator) (bars : Bars α) : CacheKey := ⟨i.name, i.params, .ofBars bars⟩

/-- The output for bars, from the cache where it is kept. -/
def cached (i : BarIndicator) (bars : Bars α) : Cached α (Series α) :=
  Cached.fetch (i.key bars) <| match i with
    | .averageTrueRange period => do
      return smooth (smmaAlpha period) (← trueRangeSeries bars)
    | .volatilityAverage period short long measure source => do
      let price ← priceSeries bars source
      let ranges ← match measure with
        | .deviation => pure []
        | .trueRange => trueRangeSeries bars
      return smoothBy price (volatilityAlphas period short long measure price ranges)
    | .fractalAverage period source => do
      let price ← priceSeries bars source
      let highs ← priceSeries bars .high
      let lows ← priceSeries bars .low
      return smoothBy price (fractalAlphas highs lows period)
    | .trueRange | .stochastic _ | .donchian _ _ => return i.values bars

end BarIndicator

end Chartist
