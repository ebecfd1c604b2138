import Chartist.Catalog.Entry
import Chartist.Position

/-!
# The JSON forms of the library's types

Bars, positions, cascades and rules have forms of their own; `Schema.kinds` lists every type
with a form by its name.
-/

namespace Chartist

open Json Window Chartist.Filter Adaptive

variable {α : Type} [Scalar α]

/-- A bar has all its fields; other members are ignored. -/
def Bar.form : Form α (Bar α) where
  encode b := object [("timestamp", .int b.timestamp), ("open", .real b.opening),
    ("high", .real b.high), ("low", .real b.low), ("close", .real b.close),
    ("volume", .real b.volume)]
  decode j := do
    let r ← openRecord ["timestamp", "open", "high", "low", "close", "volume"] j
    return {
      timestamp := ← r.required "timestamp" int64
      opening := ← r.required "open" number
      high := ← r.required "high" number
      low := ← r.required "low" number
      close := ← r.required "close" number
      volume := ← r.required "volume" number }

/-- A position has all its fields; other members are ignored. -/
def Position.form : Form α (Position α) where
  encode p := object [("entry_price", .real p.entryPrice), ("entry_bar", .count p.entryBar),
    ("long", .bool p.long), ("extremes", .reals p.extremes)]
  decode j := do
    let r ← openRecord ["entry_price", "entry_bar", "long", "extremes"] j
    return {
      entryPrice := ← r.required "entry_price" number
      entryBar := ← r.required "entry_bar" nat
      long := ← r.required "long" boolean
      extremes := ← r.required "extremes" (listOf number) }

/-- The names of the cascades, told apart without their depth. -/
def Filter.Cascade.label : Cascade → String
  | .double => "dema"
  | .triple => "tema"
  | .deep _ => "nema"

/-- The kind and, in its place, the depth. A kind without a depth has none or `null`. As an
array, both places are filled. -/
def Filter.Cascade.form : Form α Cascade where
  encode c := match c with
    | .deep depth => object [("kind", .str c.label), ("depth", .count depth)]
    | _ => object [("kind", .str c.label)]
  decode j := do
    let r ← openRecord ["kind", "depth"] j
    let positional := match j with
      | .arr _ => true
      | _ => false
    let kind ← r.required "kind" (choice [.double, .triple, .deep 0] Cascade.label)
    match kind, r.lookup "depth" with
    | .deep _, some depth => return .deep (← natOfBits 32 depth)
    | .deep _, none => .error (.missingField "depth")
    | kind, some .null => return kind
    | _, some _ => .error .wrongKind
    | kind, none => if positional then .error .wrongLength else return kind

namespace Adaptive.Rule

/-- The name of a rule, told apart without its windows. -/
def label : Rule → String
  | .efficiency .. => "efficiency"
  | .momentum .. => "momentum"
  | .volatility .. => "volatility"

/-- The name and the fields of a rule, given as members or one after the other. -/
def splitLabel : Json α → Decoded (String × Json α)
  | .obj members => return (← Record.required members "rule" string, .obj members)
  | .arr (name :: fields) => return (← string name, .arr fields)
  | _ => .error .wrongKind

/-- The fields of a rule stand beside its name; other members are ignored. -/
def form : Form α Rule where
  encode r := match r with
    | .efficiency period fast slow => object [("rule", .str r.label),
        ("period", .count period), ("fast", .count fast), ("slow", .count slow)]
    | .momentum period length => object [("rule", .str r.label),
        ("period", .count period), ("cmo_length", .count length)]
    | .volatility period short long => object [("rule", .str r.label),
        ("period", .count period), ("short", .count short), ("long", .count long)]
  decode j := do
    let (name, fields) ← splitLabel j
    match ← named [.efficiency 0 0 0, .momentum 0 0, .volatility 0 0 0] label name with
    | .efficiency .. =>
      let r ← openRecord ["period", "fast", "slow"] fields
      return .efficiency (← r.required "period" nat) (← r.required "fast" nat)
        (← r.required "slow" nat)
    | .momentum .. =>
      let r ← openRecord ["period", "cmo_length"] fields
      return .momentum (← r.required "period" nat) (← r.required "cmo_length" nat)
    | .volatility .. =>
      let r ← openRecord ["period", "short", "long"] fields
      return .volatility (← r.required "period" nat) (← r.required "short" nat)
        (← r.required "long" nat)

end Adaptive.Rule

namespace Schema

open Catalog

/-- A type with a JSON form. -/
structure Kind (α : Type) where
  Carrier : Type
  form : Form α Carrier

/-- The types with a JSON form, by name. -/
def kinds : List (String × Kind α) := [
  ("price_source", ⟨_, PriceSource.form⟩),
  ("bar", ⟨_, Bar.form⟩),
  ("open_position", ⟨_, Position.form⟩),
  ("kernel", ⟨_, Kernel.form⟩),
  ("cascade_kind", ⟨_, Cascade.form⟩),
  ("adaptive_rule", ⟨_, Rule.form⟩),
  ("pole_design", ⟨_, PoleDesign.form⟩),
  ("ma_method", ⟨_, AverageMethod.form⟩),
  ("volatility_measure", ⟨_, VolatilityMeasure.form⟩),
  ("channel_line", ⟨_, ChannelLine.form⟩),
  ("handler_info", ⟨_, Entry.form⟩),
  ("period_config", ⟨_, PeriodConfig.form⟩),
  ("bar_period_config", ⟨_, BarPeriodConfig.form⟩),
  ("empty_config", ⟨_, EmptyConfig.form⟩),
  ("ma_config", ⟨_, AverageConfig.form⟩),
  ("nema_config", ⟨_, DeepConfig.form⟩),
  ("kama_config", ⟨_, EfficiencyConfig.form⟩),
  ("vidya_config", ⟨_, MomentumConfig.form⟩),
  ("vama_config", ⟨_, VolatilityConfig.form⟩),
  ("frama_config", ⟨_, FractalConfig.form⟩),
  ("gamma_config", ⟨_, GammaConfig.form⟩),
  ("kalman_config", ⟨_, KalmanConfig.form⟩),
  ("rank_config", ⟨_, RankConfig.form⟩),
  ("macd_config", ⟨_, MacdConfig.form⟩),
  ("bollinger_config", ⟨_, BollingerConfig.form⟩),
  ("donchian_config", ⟨_, DonchianConfig.form⟩)]

/-- The JSON that a value of a named type becomes when it is read and written again. -/
def normalize (type : String) (j : Json α) : Option (Decoded (Json α)) :=
  (kinds.lookup type).map fun kind => kind.form.normalize j

end Schema

end Chartist
