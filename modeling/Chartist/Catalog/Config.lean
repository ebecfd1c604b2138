import Chartist.Indicator.Handler
import Chartist.Json.Form

/-!
# Configurations

The parameters of each kind of catalog entry, their defaults and their JSON forms. A
configuration names no field that it does not have.
-/

namespace Chartist

open Json Window Chartist.Filter Adaptive

variable {α : Type}

/-! ## Forms of the choices -/

def PriceSource.form : Form α PriceSource := .choice PriceSource.all PriceSource.name

def Window.Kernel.form : Form α Kernel := .choice Kernel.all Kernel.name

def Filter.PoleDesign.form : Form α PoleDesign := .choice PoleDesign.all PoleDesign.name

def VolatilityMeasure.form : Form α VolatilityMeasure :=
  .choice VolatilityMeasure.all VolatilityMeasure.name

def ChannelLine.form : Form α ChannelLine := .choice ChannelLine.all ChannelLine.name

/-- A method is written by its name; it is read from its code, or from its name in any
case. -/
def AverageMethod.form : Form α AverageMethod where
  encode m := .str m.name
  decode
    | .int n =>
      if 0 ≤ n ∧ n < 256 then
        (AverageMethod.ofCode n.toNat : Except (StudyError α) _).mapError fun _ => .outOfRange
      else .error .outOfRange
    | .str s => (AverageMethod.ofText s : Except (StudyError α) _).mapError fun _ => .unknownName s
    | _ => .error .wrongKind

/-! ## Configurations of the entries -/

namespace Catalog

/-- One period on one price. -/
structure PeriodConfig where
  period : Nat := 14
  source : PriceSource := .close
  deriving Repr, DecidableEq

def PeriodConfig.form : Form α PeriodConfig where
  encode c := object [("period", .count c.period), ("source", PriceSource.form.encode c.source)]
  decode j := do
    let r ← record ["period", "source"] j
    return {
      period := ← r.field "period" nat 14
      source := ← r.field "source" PriceSource.form.decode .close }

/-- One period over whole bars. -/
structure BarPeriodConfig where
  period : Nat := 14
  deriving Repr, DecidableEq

def BarPeriodConfig.form : Form α BarPeriodConfig where
  encode c := object [("period", .count c.period)]
  decode j := do
    let r ← record ["period"] j
    return { period := ← r.field "period" nat 14 }

/-- Nothing to configure. -/
structure EmptyConfig where
  deriving Repr, DecidableEq

def EmptyConfig.form : Form α EmptyConfig where
  encode _ := object []
  decode j := do
    let _ ← record [] j
    return {}

/-- An average by method. -/
structure AverageConfig where
  period : Nat := 14
  method : AverageMethod := .simple
  source : PriceSource := .close
  deriving Repr, DecidableEq

def AverageConfig.form : Form α AverageConfig where
  encode c := object [("period", .count c.period),
    ("method", AverageMethod.form.encode c.method),
    ("source", PriceSource.form.encode c.source)]
  decode j := do
    let r ← record ["period", "method", "source"] j
    return {
      period := ← r.field "period" nat 14
      method := ← r.field "method" AverageMethod.form.decode .simple
      source := ← r.field "source" PriceSource.form.decode .close }

/-- A cascade of any depth. -/
structure DeepConfig where
  period : Nat := 14
  depth : Nat := 4
  source : PriceSource := .close
  deriving Repr, DecidableEq

def DeepConfig.form : Form α DeepConfig where
  encode c := object [("period", .count c.period), ("depth", .count c.depth),
    ("source", PriceSource.form.encode c.source)]
  decode j := do
    let r ← record ["period", "depth", "source"] j
    return {
      period := ← r.field "period" nat 14
      depth := ← r.field "depth" (natOfBits 32) 4
      source := ← r.field "source" PriceSource.form.decode .close }

/-- An average driven by the efficiency ratio. -/
structure EfficiencyConfig where
  period : Nat := 10
  fast : Nat := 2
  slow : Nat := 30
  source : PriceSource := .close
  deriving Repr, DecidableEq

def EfficiencyConfig.form : Form α EfficiencyConfig where
  encode c := object [("period", .count c.period), ("fast", .count c.fast),
    ("slow", .count c.slow), ("source", PriceSource.form.encode c.source)]
  decode j := do
    let r ← record ["period", "fast", "slow", "source"] j
    return {
      period := ← r.field "period" nat 10
      fast := ← r.field "fast" nat 2
      slow := ← r.field "slow" nat 30
      source := ← r.field "source" PriceSource.form.decode .close }

/-- An average driven by momentum. -/
structure MomentumConfig where
  period : Nat := 14
  length : Nat := 9
  source : PriceSource := .close
  deriving Repr, DecidableEq

def MomentumConfig.form : Form α MomentumConfig where
  encode c := object [("period", .count c.period), ("cmo_length", .count c.length),
    ("source", PriceSource.form.encode c.source)]
  decode j := do
    let r ← record ["period", "cmo_length", "source"] j
    return {
      period := ← r.field "period" nat 14
      length := ← r.field "cmo_length" nat 9
      source := ← r.field "source" PriceSource.form.decode .close }

/-- An average driven by volatility. -/
structure VolatilityConfig where
  period : Nat := 14
  short : Nat := 10
  long : Nat := 50
  measure : VolatilityMeasure := .deviation
  source : PriceSource := .close
  deriving Repr, DecidableEq

def VolatilityConfig.form : Form α VolatilityConfig where
  encode c := object [("period", .count c.period), ("short", .count c.short),
    ("long", .count c.long), ("measure", VolatilityMeasure.form.encode c.measure),
    ("source", PriceSource.form.encode c.source)]
  decode j := do
    let r ← record ["period", "short", "long", "measure", "source"] j
    return {
      period := ← r.field "period" nat 14
      short := ← r.field "short" nat 10
      long := ← r.field "long" nat 50
      measure := ← r.field "measure" VolatilityMeasure.form.decode .deviation
      source := ← r.field "source" PriceSource.form.decode .close }

/-- An average driven by the fractal dimension. -/
structure FractalConfig where
  period : Nat := 16
  source : PriceSource := .median
  deriving Repr, DecidableEq

def FractalConfig.form : Form α FractalConfig where
  encode c := object [("period", .count c.period), ("source", PriceSource.form.encode c.source)]
  decode j := do
    let r ← record ["period", "source"] j
    return {
      period := ← r.field "period" nat 16
      source := ← r.field "source" PriceSource.form.decode .median }

/-- A damping factor. -/
structure GammaConfig (α : Type) where
  gamma : α
  source : PriceSource := .close
  deriving Repr, DecidableEq

def GammaConfig.form [Scalar α] : Form α (GammaConfig α) where
  encode c := object [("gamma", .real c.gamma), ("source", PriceSource.form.encode c.source)]
  decode j := do
    let r ← record ["gamma", "source"] j
    return {
      gamma := ← r.field "gamma" number 0.5
      source := ← r.field "source" PriceSource.form.decode .close }

/-- The noise of a level and of its measurements. -/
structure KalmanConfig (α : Type) where
  processNoise : α
  measurementNoise : α
  source : PriceSource := .close
  deriving Repr, DecidableEq

def KalmanConfig.form [Scalar α] : Form α (KalmanConfig α) where
  encode c := object [("process_noise", .real c.processNoise),
    ("measurement_noise", .real c.measurementNoise),
    ("source", PriceSource.form.encode c.source)]
  decode j := do
    let r ← record ["process_noise", "measurement_noise", "source"] j
    return {
      processNoise := ← r.field "process_noise" number 0.01
      measurementNoise := ← r.field "measurement_noise" number 1
      source := ← r.field "source" PriceSource.form.decode .close }

/-- A rank within a window. -/
structure RankConfig where
  period : Nat := 20
  minHistory : Nat := 1
  percent : Bool := false
  source : PriceSource := .close
  deriving Repr, DecidableEq

def RankConfig.form : Form α RankConfig where
  encode c := object [("period", .count c.period), ("min_history", .count c.minHistory),
    ("percent", .bool c.percent), ("source", PriceSource.form.encode c.source)]
  decode j := do
    let r ← record ["period", "min_history", "percent", "source"] j
    return {
      period := ← r.field "period" nat 20
      minHistory := ← r.field "min_history" nat 1
      percent := ← r.field "percent" boolean false
      source := ← r.field "source" PriceSource.form.decode .close }

/-- An output of the distance of two averages. -/
structure MacdConfig where
  fast : Nat := 12
  slow : Nat := 26
  signal : Nat := 9
  source : PriceSource := .close
  output : String := "macd"
  deriving Repr, DecidableEq

def MacdConfig.form : Form α MacdConfig where
  encode c := object [("fast", .count c.fast), ("slow", .count c.slow),
    ("signal", .count c.signal), ("source", PriceSource.form.encode c.source),
    ("output", .str c.output)]
  decode j := do
    let r ← record ["fast", "slow", "signal", "source", "output"] j
    return {
      fast := ← r.field "fast" nat 12
      slow := ← r.field "slow" nat 26
      signal := ← r.field "signal" nat 9
      source := ← r.field "source" PriceSource.form.decode .close
      output := ← r.field "output" string "macd" }

/-- An output of bands around a mean. -/
structure BollingerConfig (α : Type) where
  period : Nat := 20
  multiplier : α
  source : PriceSource := .close
  output : String := "middle"
  deriving Repr, DecidableEq

def BollingerConfig.form [Scalar α] : Form α (BollingerConfig α) where
  encode c := object [("period", .count c.period), ("multiplier", .real c.multiplier),
    ("source", PriceSource.form.encode c.source), ("output", .str c.output)]
  decode j := do
    let r ← record ["period", "multiplier", "source", "output"] j
    return {
      period := ← r.field "period" nat 20
      multiplier := ← r.field "multiplier" number 2
      source := ← r.field "source" PriceSource.form.decode .close
      output := ← r.field "output" string "middle" }

/-- A line of a channel. -/
structure DonchianConfig where
  period : Nat := 20
  output : ChannelLine := .middle
  deriving Repr, DecidableEq

def DonchianConfig.form : Form α DonchianConfig where
  encode c := object [("period", .count c.period), ("output", ChannelLine.form.encode c.output)]
  decode j := do
    let r ← record ["period", "output"] j
    return {
      period := ← r.field "period" nat 20
      output := ← r.field "output" ChannelLine.form.decode .middle }

end Catalog

end Chartist
