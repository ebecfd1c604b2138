import Chartist.Catalog.Config

/-!
# The catalog

Every indicator has an entry: a name, a description and a default configuration. Apart from the
entries, each name has a way to build a handler from a configuration. A configuration that is
`null` counts as empty, and fields that it does not give take their defaults, so a handler can be
built from any part of the default configuration, none of it included, as long as the entry of a
name and the way to build from it are about one kind of configuration.
-/

namespace Chartist

open Json Window Chartist.Filter Adaptive

namespace Catalog

/-- What the catalog tells about an indicator. -/
structure Entry (α : Type) where
  name : String
  description : String
  defaultConfig : Json α

variable {α : Type}

def Entry.form : Form α (Entry α) where
  encode i := object [("name", .str i.name), ("description", .str i.description),
    ("default_config", i.defaultConfig)]
  decode j := do
    let r ← openRecord ["name", "description", "default_config"] j
    return {
      name := ← r.required "name" string
      description := ← r.required "description" string
      defaultConfig := ← r.required "default_config" Form.any.decode }

/-! ## Entries -/

/-- The entry of a name whose configurations have a form and a default. -/
def register (form : Form α C) (default : C) (name description : String) : Entry α :=
  ⟨name, description, form.encode default⟩

variable [Scalar α]

/-- All entries, in the order of their names. -/
def entries : List (Entry α) := [
  register BarPeriodConfig.form {} "atr" "Average true range",
  register BollingerConfig.form { multiplier := 2 } "bollinger" "Bollinger bands",
  register PeriodConfig.form {} "butterworth2" "Two-pole Butterworth filter",
  register PeriodConfig.form {} "butterworth3" "Three-pole Butterworth filter",
  register PeriodConfig.form {} "cmo" "Chande momentum oscillator",
  register PeriodConfig.form {} "dema" "Double exponential moving average",
  register DonchianConfig.form {} "donchian" "Donchian channel",
  register PeriodConfig.form {} "ema" "Exponential moving average",
  register FractalConfig.form {} "frama" "Fractal adaptive moving average",
  register KalmanConfig.form { processNoise := 0.01, measurementNoise := 1 } "kalman"
    "Kalman level filter",
  register EfficiencyConfig.form {} "kama" "Kaufman adaptive moving average",
  register GammaConfig.form { gamma := 0.5 } "laguerre" "Laguerre filter",
  register GammaConfig.form { gamma := 0.5 } "lrsi" "Laguerre RSI",
  register PeriodConfig.form {} "lwma" "Linearly weighted moving average",
  register AverageConfig.form {} "ma" "Moving average with selectable method",
  register MacdConfig.form {} "macd" "Moving average convergence divergence",
  register PeriodConfig.form {} "median" "Moving median",
  register DeepConfig.form {} "nema" "N-fold exponential moving average",
  register RankConfig.form {} "rank" "Position within the trailing range",
  register PeriodConfig.form {} "rsi" "Relative strength index",
  register PeriodConfig.form {} "sinewma" "Sine-weighted moving average",
  register PeriodConfig.form {} "sma" "Simple moving average",
  register PeriodConfig.form {} "smma" "Smoothed (Wilder) moving average",
  register PeriodConfig.form {} "stddev" "Standard deviation",
  register BarPeriodConfig.form {} "stochk" "Stochastic %K",
  register PeriodConfig.form {} "supersmoother" "Ehlers two-pole super smoother",
  register PeriodConfig.form {} "tema" "Triple exponential moving average",
  register EmptyConfig.form {} "tr" "True range",
  register PeriodConfig.form {} "trima" "Triangular moving average",
  register VolatilityConfig.form {} "vama" "Volatility-adjusted moving average",
  register MomentumConfig.form {} "vidya" "Variable index dynamic average"]

/-- The entry of a name. -/
def get? (name : String) : Option (Entry α) := entries.find? (·.name == name)

/-- The catalog has an entry of that name. -/
def mem (α : Type) [Scalar α] (name : String) : Bool :=
  (entries : List (Entry α)).any (·.name == name)

/-- The entry of a name, which has to exist. -/
def find (name : String) : Except (StudyError α) (Entry α) :=
  match get? name with
  | some e => .ok e
  | none => .error (.unknownIndicator name)

/-! ## Ways to build -/

/-- A way to build a handler from a configuration. -/
abbrev Builder (α : Type) := Json α → Except (StudyError α) (Handler α)

/-- A configuration read by its form; `null` is the empty one. -/
def readConfig (form : Form α C) (config : Json α) : Except (StudyError α) C :=
  let config := match config with
    | .null => .obj []
    | j => j
  (form.decode config).mapError fun _ => .invalidConfig

/-- Builds from the configurations of a form. -/
def building (form : Form α C) (build : C → Except (StudyError α) (Handler α)) : Builder α :=
  fun config => do build (← readConfig form config)

/-- The handler of an indicator on a price. -/
def onPrice (source : PriceSource) (indicator : SeriesIndicator α) :
    Except (StudyError α) (Handler α) :=
  return .onPrice source (← indicator.checked)

/-- The handler of an indicator on bars. -/
def onBars (indicator : BarIndicator) : Except (StudyError α) (Handler α) :=
  return .onBars (← indicator.checked)

/-- The handler of one output of a bundle on a price. -/
def onOutput (source : PriceSource) (bundle : Bundle α) (output : String) :
    Except (StudyError α) (Handler α) := do
  Handler.outputOf source (← bundle.checked) output

/-- Builds from one period on one price. -/
def onPeriod (indicator : Nat → SeriesIndicator α) : Builder α :=
  building PeriodConfig.form fun c => onPrice c.source (indicator c.period)

/-- Builds from one period on bars. -/
def onBarPeriod (indicator : Nat → BarIndicator) : Builder α :=
  building BarPeriodConfig.form fun c => onBars (indicator c.period)

/-- Builds from a damping factor on one price. -/
def onGamma (indicator : α → SeriesIndicator α) : Builder α :=
  building GammaConfig.form fun c => onPrice c.source (indicator c.gamma)

/-- How handlers of a name are built. -/
def builder? (name : String) : Option (Builder α) :=
  match name with
  | "sma" => some (onPeriod .simple)
  | "ema" => some (onPeriod .ema)
  | "smma" => some (onPeriod .smoothed)
  | "lwma" => some (onPeriod (.weighted .linear))
  | "sinewma" => some (onPeriod (.weighted .sine))
  | "trima" => some (onPeriod (.weighted .triangular))
  | "median" => some (onPeriod .median)
  | "ma" => some <| building AverageConfig.form fun c => onPrice c.source (.average c.method c.period)
  | "dema" => some (onPeriod (.cascade .double))
  | "tema" => some (onPeriod (.cascade .triple))
  | "nema" => some <| building DeepConfig.form fun c =>
    onPrice c.source (.cascade (.deep c.depth) c.period)
  | "kama" => some <| building EfficiencyConfig.form fun c =>
    onPrice c.source (.efficiencyAverage c.period c.fast c.slow)
  | "vidya" => some <| building MomentumConfig.form fun c =>
    onPrice c.source (.momentumAverage c.period c.length)
  | "vama" => some <| building VolatilityConfig.form fun c =>
    onBars (.volatilityAverage c.period c.short c.long c.measure c.source)
  | "frama" => some <| building FractalConfig.form fun c => onBars (.fractalAverage c.period c.source)
  | "supersmoother" => some (onPeriod (.pole .superSmoother))
  | "butterworth2" => some (onPeriod (.pole .butterworth2))
  | "butterworth3" => some (onPeriod (.pole .butterworth3))
  | "laguerre" => some (onGamma .laguerre)
  | "kalman" => some <| building KalmanConfig.form fun c =>
    onPrice c.source (.kalman c.processNoise c.measurementNoise)
  | "rsi" => some (onPeriod .rsi)
  | "lrsi" => some (onGamma .laguerreRsi)
  | "cmo" => some (onPeriod .momentum)
  | "stochk" => some (onBarPeriod .stochastic)
  | "rank" => some <| building RankConfig.form fun c =>
    onPrice c.source (.rankOver c.period c.minHistory c.percent)
  | "macd" => some <| building MacdConfig.form fun c =>
    onOutput c.source (.macd c.fast c.slow c.signal) c.output
  | "tr" => some <| building EmptyConfig.form fun _ => onBars .trueRange
  | "atr" => some (onBarPeriod .averageTrueRange)
  | "stddev" => some (onPeriod .deviation)
  | "bollinger" => some <| building BollingerConfig.form fun c =>
    onOutput c.source (.bollinger c.period c.multiplier) c.output
  | "donchian" => some <| building DonchianConfig.form fun c => onBars (.donchian c.period c.output)
  | _ => none

/-- The handler of a name with a configuration. -/
def create (name : String) (config : Json α) : Except (StudyError α) (Handler α) :=
  match builder? name with
  | some build => build config
  | none => .error (.unknownIndicator name)

/-- The handler of a name with its default configuration. -/
def createDefault (name : String) : Except (StudyError α) (Handler α) := do
  create name (← find name).defaultConfig

end Catalog

end Chartist
