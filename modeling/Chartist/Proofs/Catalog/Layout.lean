import Chartist.Catalog.Config
import Chartist.Proofs.Json.Record

/-!
# The layout of the configurations

The fields of each kind of configuration. The reader of every kind takes them in the order in which
they are written, and falls back to the same default for each of them that the catalog shows
(`Completed`).
-/

namespace Chartist.Catalog

open Json

variable {α : Type}

/-- The price that a configuration selects. -/
abbrev priceField {C : Type} (get : C → PriceSource) (default : C) : Field α C :=
  .optional "source" PriceSource.form get default

def PeriodConfig.fields (c : PeriodConfig) : List (Field α PeriodConfig) :=
  [.optional "period" .nat (·.period) c, priceField (·.source) c]

theorem PeriodConfig.completed : Completed (fields {}) (form : Form α PeriodConfig) {} where
  encode _ := rfl
  decode := ⟨_, fun _ => rfl, .field fun _ => .field fun _ => .done (by simp)⟩
  sound := by simp [fields]
  distinct := by simp [fields]
  defaults := by simp [fields]

def BarPeriodConfig.fields (c : BarPeriodConfig) : List (Field α BarPeriodConfig) :=
  [.optional "period" .nat (·.period) c]

theorem BarPeriodConfig.completed : Completed (fields {}) (form : Form α BarPeriodConfig) {} where
  encode _ := rfl
  decode := ⟨_, fun _ => rfl, .field fun _ => .done (by simp)⟩
  sound := by simp [fields]
  distinct := by simp [fields]
  defaults := by simp [fields]

theorem EmptyConfig.completed : Completed [] (form : Form α EmptyConfig) {} where
  encode _ := rfl
  decode := ⟨_, fun _ => rfl, .done trivial⟩
  sound := by simp
  distinct := by simp
  defaults := by simp

def AverageConfig.fields (c : AverageConfig) : List (Field α AverageConfig) :=
  [.optional "period" .nat (·.period) c, .optional "method" AverageMethod.form (·.method) c,
    priceField (·.source) c]

theorem AverageConfig.completed : Completed (fields {}) (form : Form α AverageConfig) {} where
  encode _ := rfl
  decode := ⟨_, fun _ => rfl, .field fun _ => .field fun _ => .field fun _ => .done (by simp)⟩
  sound := by simp [fields]
  distinct := by simp [fields]
  defaults := by simp [fields]

def DeepConfig.fields (c : DeepConfig) : List (Field α DeepConfig) :=
  [.optional "period" .nat (·.period) c, .optional "depth" .nat32 (·.depth) c,
    priceField (·.source) c]

theorem DeepConfig.completed : Completed (fields {}) (form : Form α DeepConfig) {} where
  encode _ := rfl
  decode := ⟨_, fun _ => rfl, .field fun _ => .field fun _ => .field fun _ => .done (by simp)⟩
  sound := by simp [fields]
  distinct := by simp [fields]
  defaults := by simp [fields]

def EfficiencyConfig.fields (c : EfficiencyConfig) : List (Field α EfficiencyConfig) :=
  [.optional "period" .nat (·.period) c, .optional "fast" .nat (·.fast) c,
    .optional "slow" .nat (·.slow) c, priceField (·.source) c]

theorem EfficiencyConfig.completed : Completed (fields {}) (form : Form α EfficiencyConfig) {} where
  encode _ := rfl
  decode := ⟨_, fun _ => rfl,
    .field fun _ => .field fun _ => .field fun _ => .field fun _ => .done (by simp)⟩
  sound := by simp [fields]
  distinct := by simp [fields]
  defaults := by simp [fields]

def MomentumConfig.fields (c : MomentumConfig) : List (Field α MomentumConfig) :=
  [.optional "period" .nat (·.period) c, .optional "cmo_length" .nat (·.length) c,
    priceField (·.source) c]

theorem MomentumConfig.completed : Completed (fields {}) (form : Form α MomentumConfig) {} where
  encode _ := rfl
  decode := ⟨_, fun _ => rfl, .field fun _ => .field fun _ => .field fun _ => .done (by simp)⟩
  sound := by simp [fields]
  distinct := by simp [fields]
  defaults := by simp [fields]

def VolatilityConfig.fields (c : VolatilityConfig) : List (Field α VolatilityConfig) :=
  [.optional "period" .nat (·.period) c, .optional "short" .nat (·.short) c,
    .optional "long" .nat (·.long) c, .optional "measure" VolatilityMeasure.form (·.measure) c,
    priceField (·.source) c]

theorem VolatilityConfig.completed : Completed (fields {}) (form : Form α VolatilityConfig) {} where
  encode _ := rfl
  decode := ⟨_, fun _ => rfl, .field fun _ => .field fun _ => .field fun _ => .field fun _ =>
    .field fun _ => .done (by simp)⟩
  sound := by simp [fields]
  distinct := by simp [fields]
  defaults := by simp [fields]

def FractalConfig.fields (c : FractalConfig) : List (Field α FractalConfig) :=
  [.optional "period" .nat (·.period) c, priceField (·.source) c]

theorem FractalConfig.completed : Completed (fields {}) (form : Form α FractalConfig) {} where
  encode _ := rfl
  decode := ⟨_, fun _ => rfl, .field fun _ => .field fun _ => .done (by simp)⟩
  sound := by simp [fields]
  distinct := by simp [fields]
  defaults := by simp [fields]

def RankConfig.fields (c : RankConfig) : List (Field α RankConfig) :=
  [.optional "period" .nat (·.period) c, .optional "min_history" .nat (·.minHistory) c,
    .optional "percent" .boolean (·.percent) c, priceField (·.source) c]

theorem RankConfig.completed : Completed (fields {}) (form : Form α RankConfig) {} where
  encode _ := rfl
  decode := ⟨_, fun _ => rfl,
    .field fun _ => .field fun _ => .field fun _ => .field fun _ => .done (by simp)⟩
  sound := by simp [fields]
  distinct := by simp [fields]
  defaults := by simp [fields]

def MacdConfig.fields (c : MacdConfig) : List (Field α MacdConfig) :=
  [.optional "fast" .nat (·.fast) c, .optional "slow" .nat (·.slow) c,
    .optional "signal" .nat (·.signal) c, priceField (·.source) c,
    .optional "output" .string (·.output) c]

theorem MacdConfig.completed : Completed (fields {}) (form : Form α MacdConfig) {} where
  encode _ := rfl
  decode := ⟨_, fun _ => rfl, .field fun _ => .field fun _ => .field fun _ => .field fun _ =>
    .field fun _ => .done (by simp)⟩
  sound := by simp [fields]
  distinct := by simp [fields]
  defaults := by simp [fields]

def DonchianConfig.fields (c : DonchianConfig) : List (Field α DonchianConfig) :=
  [.optional "period" .nat (·.period) c, .optional "output" ChannelLine.form (·.output) c]

theorem DonchianConfig.completed : Completed (fields {}) (form : Form α DonchianConfig) {} where
  encode _ := rfl
  decode := ⟨_, fun _ => rfl, .field fun _ => .field fun _ => .done (by simp)⟩
  sound := by simp [fields]
  distinct := by simp [fields]
  defaults := by simp [fields]

/-! Configurations with numbers -/

variable [Scalar α]

def GammaConfig.fields (c : GammaConfig α) : List (Field α (GammaConfig α)) :=
  [.optional "gamma" .number (·.gamma) c, priceField (·.source) c]

theorem GammaConfig.completed :
    Completed (fields { gamma := (0.5 : α) }) form { gamma := 0.5 } where
  encode _ := rfl
  decode := ⟨_, fun _ => rfl, .field fun _ => .field fun _ => .done (by simp)⟩
  sound := by simp [fields]
  distinct := by simp [fields]
  defaults := by simp [fields]

def KalmanConfig.fields (c : KalmanConfig α) : List (Field α (KalmanConfig α)) :=
  [.optional "process_noise" .number (·.processNoise) c,
    .optional "measurement_noise" .number (·.measurementNoise) c, priceField (·.source) c]

theorem KalmanConfig.completed :
    Completed (fields { processNoise := (0.01 : α), measurementNoise := 1 }) form
      { processNoise := 0.01, measurementNoise := 1 } where
  encode _ := rfl
  decode := ⟨_, fun _ => rfl, .field fun _ => .field fun _ => .field fun _ => .done (by simp)⟩
  sound := by simp [fields]
  distinct := by simp [fields]
  defaults := by simp [fields]

def BollingerConfig.fields (c : BollingerConfig α) : List (Field α (BollingerConfig α)) :=
  [.optional "period" .nat (·.period) c, .optional "multiplier" .number (·.multiplier) c,
    priceField (·.source) c, .optional "output" .string (·.output) c]

theorem BollingerConfig.completed :
    Completed (fields { multiplier := (2 : α) }) form { multiplier := 2 } where
  encode _ := rfl
  decode := ⟨_, fun _ => rfl,
    .field fun _ => .field fun _ => .field fun _ => .field fun _ => .done (by simp)⟩
  sound := by simp [fields]
  distinct := by simp [fields]
  defaults := by simp [fields]

end Chartist.Catalog
