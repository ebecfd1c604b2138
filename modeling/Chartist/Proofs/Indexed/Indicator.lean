import Chartist.Proofs.Causal.Indicator
import Chartist.Proofs.Indexed.Filter
import Chartist.Stop

/-!
# Indicators by index

What an indicator computes on a series, with each of its steps at an index, is its output if its
parameters were checked (`seriesValues_eq`), and so are the lines of bands, the true ranges, the
favourable extremes of a position and the levels of a stop. The windows that a check lets pass
are what the assertions and subtractions rest on.
-/

namespace Chartist.Indexed

open Window Chartist.Filter Scalar Adaptive

variable {α : Type} [Scalar α]

/-! ## Indicators on series -/

def alphas (rule : Rule) (data : List α) : Option (List α) :=
  match rule with
  | .efficiency period fast slow => do
    return afterLookback period (kamaAlpha · fast slow) (← efficiencyRatio data period)
  | .momentum period length => do
    return ratioAlphas ((← momentum data length).map Scalar.abs) period length
  | .volatility period short long => do
    return ratioAlphas (ratio (← rollingDeviation data short) (← rollingDeviation data long)) period
      long

def average (method : AverageMethod) (period : Nat) (data : List α) : Option (List α) :=
  match method with
  | .simple => rollingMean data period
  | .exponential => smooth (emaAlpha period) data
  | .smoothed => smooth (smmaAlpha period) data
  | .linear => weightedAverage data .linear period

/-- The output for a series. -/
def seriesValues (i : SeriesIndicator α) (data : Series α) : Option (Series α) :=
  match i with
  | .simple period => rollingMean data period
  | .exponential _ alpha => smooth alpha data
  | .smoothed period => smooth (smmaAlpha period) data
  | .weighted kernel period => weightedAverage data kernel period
  | .median period => movingMedian data period
  | .cascade kind period => do
    combine (← stages (emaAlpha period) kind.depth data) (← cascadeWeights kind.depth)
  | .average method period => average method period data
  | .efficiencyAverage period fast slow => do
    smoothBy data (← alphas (.efficiency period fast slow) data)
  | .momentumAverage period length => do smoothBy data (← alphas (.momentum period length) data)
  | .pole design period => applyFilter (design.filter period) data
  | .laguerre gamma => some ((Laguerre.pass gamma data).map Laguerre.filter)
  | .kalman processNoise measurementNoise => kalman processNoise measurementNoise data
  | .rsi period => rsi period data
  | .laguerreRsi gamma => some ((Laguerre.pass gamma data).map Laguerre.strength)
  | .momentum period => do return (← momentum data period).map (· * 100)
  | .rank window percent => ranks window percent data
  | .deviation period => rollingDeviation data period

theorem alphas_eq {rule : Rule} (valid : (rule.validate : Except (StudyError α) Unit) = .ok ())
    (data : List α) : alphas rule data = some (rule.alphas data) := by
  cases rule with
  | efficiency period fast slow =>
      rw [alphas, efficiencyRatio_eq]
      rfl
  | momentum period length =>
      rw [alphas, momentum_eq]
      rfl
  | volatility period short long =>
      obtain ⟨_, -, rest⟩ := exists_of_bind_ok valid
      obtain ⟨_, shortValid, rest⟩ := exists_of_bind_ok rest
      obtain ⟨_, longValid, -⟩ := exists_of_bind_ok rest
      rw [alphas, rollingDeviation_eq (checkPeriod_pos shortValid), Option.bind_eq_bind,
        Option.bind_some, rollingDeviation_eq (checkPeriod_pos longValid)]
      rfl

theorem average_eq (method : AverageMethod) {period : Nat} (positive : 0 < period)
    (data : List α) : average method period data = some (method.apply period data) := by
  cases method with
  | simple => exact rollingMean_eq positive data
  | exponential | smoothed => exact smooth_eq _ data
  | linear => exact weightedAverage_eq .linear positive data

/-- Smoothing with the factors of a rule, of which there is one for each value. -/
theorem smoothBy_alphas (rule : Rule)
    (valid : (rule.validate : Except (StudyError α) Unit) = .ok ()) (data : List α) :
    (do smoothBy data (← alphas rule data)) = some (Filter.smoothBy data (rule.alphas data)) := by
  rw [alphas_eq valid]
  exact smoothBy_eq (rule.causal_alphas.length data)

theorem seriesValues_eq {i : SeriesIndicator α} (valid : i.validate = .ok ()) (data : Series α) :
    seriesValues i data = some (i.values data) := by
  -- the checks of an indicator with one period
  have positive {name : String} {period : Nat}
      (checked : (do let _ ← checkPeriod name period) = (.ok () : Except (StudyError α) Unit)) :
      0 < period := by
    obtain ⟨_, passed, -⟩ := exists_of_bind_ok checked
    exact checkPeriod_pos passed
  cases i with
  | simple period => exact rollingMean_eq (positive valid) data
  | exponential period alpha => exact smooth_eq alpha data
  | smoothed period => exact smooth_eq _ data
  | weighted kernel period =>
      obtain ⟨_, passed, -⟩ := exists_of_bind_ok valid
      exact weightedAverage_eq kernel (checkPeriod_pos passed) data
  | median period => exact movingMedian_eq (positive valid) data
  | cascade kind period =>
      rw [seriesValues, stages_eq, cascadeWeights_eq]
      exact combine_eq (fun _ member => length_of_mem_stages member) _
  | average method period => exact average_eq method (positive valid) data
  | efficiencyAverage period fast slow =>
      exact smoothBy_alphas (.efficiency period fast slow) valid data
  | momentumAverage period length =>
      exact smoothBy_alphas (.momentum period length) valid data
  | pole design period =>
      have forward : (design.filter period : LinearFilter α).feedforward ≠ [] := by
        cases design <;> exact List.cons_ne_nil _ _
      exact applyFilter_eq forward data
  | laguerre gamma | laguerreRsi gamma => rfl
  | kalman processNoise measurementNoise => exact kalman_eq _ _ data
  | rsi period => exact rsi_eq period data
  | momentum period =>
      rw [seriesValues, momentum_eq]
      rfl
  | rank window percent => exact ranks_eq (positive valid) percent data
  | deviation period => exact rollingDeviation_eq (positive valid) data

/-! ## Bars -/

/-- The true range of each bar, the close before it read at its index. -/
def trueRanges (bars : Bars α) : Option (Series α) :=
  collect bars.length fun i => do
    let b ← bars[i]?
    if 0 < i then return b.trueRange (some (← bars[← minus i 1]?).close)
    else return b.trueRange none

theorem trueRanges_eq (bars : Bars α) : trueRanges bars = some bars.trueRanges := by
  refine scan_eq bars (g := Bars.trueRangesFrom) (fun before b => b.trueRange before)
    (fun _ b => some b.close) (fun _ => rfl) (fun _ _ _ => rfl)
    (fun i before _ => before = if 0 < i then (bars[i - 1]?).map Bar.close else none) ?_
    (i := 0) (s := none) rfl
  rintro i b before _ here rfl
  refine ⟨(), ?_, ?_⟩
  · by_cases later : 0 < i
    · obtain ⟨inside, -⟩ := List.getElem?_eq_some_iff.mp here
      obtain ⟨old, found⟩ : ∃ old, bars[i - 1]? = some old :=
        ⟨_, List.getElem?_eq_getElem (show i - 1 < bars.length by omega)⟩
      simp only [here, later, if_true, minus_eq (show 1 ≤ i from later), found, Option.bind_eq_bind,
        Option.bind_some, Option.map_some]
      rfl
    · simp only [here, later, if_false, Option.bind_eq_bind, Option.bind_some]
      rfl
  · rw [if_pos (Nat.succ_pos i), Nat.add_sub_cancel, here]
    rfl

/-! ## Bands -/

/-- The five lines of bands, the last two read at each index. -/
def bands (multiplier : α) (data middle deviation : Series α) :
    Option (List (String × Series α)) := do
  let upper := List.zipWith (fun m s => m + multiplier * s) middle deviation
  let lower := List.zipWith (fun m s => m - multiplier * s) middle deviation
  let percentB ← collect data.length fun i => do
    let width := (← upper[i]?) - (← lower[i]?)
    if lt 0 width then return ((← data[i]?) - (← lower[i]?)) / width else return 0.5
  let bandwidth ← collect data.length fun i => do
    if eq (← middle[i]?) 0 then return 0
    else return ((← upper[i]?) - (← lower[i]?)) / (← middle[i]?)
  return [("upper", upper), ("middle", middle), ("lower", lower), ("percent_b", percentB),
    ("bandwidth", bandwidth)]

theorem bands_eq (multiplier : α) {data middle deviation : Series α}
    (middles : middle.length = data.length) (deviations : deviation.length = data.length) :
    bands multiplier data middle deviation =
      some (Bundle.bands multiplier data middle deviation) := by
  obtain ⟨upper, above⟩ : ∃ u, u = List.zipWith (fun m s => m + multiplier * s) middle deviation :=
    ⟨_, rfl⟩
  obtain ⟨lower, below⟩ : ∃ l, l = List.zipWith (fun m s => m - multiplier * s) middle deviation :=
    ⟨_, rfl⟩
  have uppers : upper.length = data.length := by
    rw [above, List.length_zipWith, middles, deviations, Nat.min_self]
  have lowers : lower.length = data.length := by
    rw [below, List.length_zipWith, middles, deviations, Nat.min_self]
  have pairs : (upper.zip lower).length = data.length := by
    rw [List.length_zip, uppers, lowers, Nat.min_self]
  -- both lines are read where their inputs and the two bands have a value
  have line (op : α → α × α → α) (xs : List α) (f : Nat → Option α) (length : xs.length = data.length)
      (eq : ∀ i x u l, xs[i]? = some x → upper[i]? = some u → lower[i]? = some l →
        f i = some (op x (u, l))) :
      collect data.length f = some (List.zipWith op xs (upper.zip lower)) := by
    have lengths : data.length = (List.zipWith op xs (upper.zip lower)).length := by
      rw [List.length_zipWith, pairs, length, Nat.min_self]
    rw [lengths]
    refine collect_values fun i y there => ?_
    obtain ⟨x, ⟨u, l⟩, here, bands, rfl⟩ := List.getElem?_zipWith_eq_some.mp there
    obtain ⟨first, second⟩ := List.getElem?_zip_eq_some.mp bands
    exact eq i x u l here first second
  rw [bands, Bundle.bands, ← above, ← below, line (fun x p => Bundle.percentB x p.1 p.2) data _ rfl,
    Option.bind_eq_bind, Option.bind_some,
    line (fun m p => Bundle.bandwidth p.1 m p.2) middle _ middles]
  · rfl
  · intro i m u l here first second
    simp only [here, first, second, Option.bind_eq_bind, Option.bind_some, Bundle.bandwidth]
    split <;> rfl
  · intro i x u l here first second
    simp only [here, first, second, Option.bind_eq_bind, Option.bind_some, Bundle.percentB]
    split <;> rfl

/-! ## Positions and stops -/

/-- A position with its extremes, each from the high or the low at an index. -/
def position (entryPrice : α) (entryBar : Nat) (long : Bool) (highs lows : List α) :
    Option (Position α) := do
  let known := min highs.length lows.length
  let extremes ← scan (fun i best => do
    let best := Position.better long best (← (if long then highs else lows)[i]?)
    return (best, best)) entryBar (known - entryBar) entryPrice
  return ⟨entryPrice, entryBar, long, extremes⟩

/-- The candidate level on a bar with a favourable extreme. -/
def candidate (s : Stop α) (position : Position α) (ranges : Series α) (i : Nat) (extreme : α) :
    Option α :=
  match s with
  | .trailing percent => some (Stop.trailingLevel percent position.long extreme)
  | .chandelier _ multiplier => do
    return Stop.behind position.long extreme (multiplier * (← ranges[i]?))
  | .breakeven risk trigger =>
    some (Stop.breakevenLevel risk trigger position.entryPrice position.long extreme)

/-- The levels from a bar on, with the level before it; zero from the first bar on whose
extreme is not known. -/
def ratchet (position : Position α) (candidate : Nat → α → Option α) :
    Nat → Nat → Option α → Option (List α)
  | _, 0, _ => some []
  | i, left + 1, current =>
    match position.favorableExtreme i with
    | none => some (List.replicate (left + 1) 0)
    | some extreme => do
      let level ← candidate i extreme
      let next := match current with
        | some level' => Position.better position.long level' level
        | none => level
      return next :: (← ratchet position candidate (i + 1) left (some next))

/-- The level on each of `length` bars. -/
def levels (s : Stop α) (position : Position α) (ranges : Series α) (length : Nat) :
    Option (Series α) := do
  let later ← ratchet position (candidate s position ranges) position.entryBar
    (length - position.entryBar) none
  return List.replicate (min position.entryBar length) 0 ++ later

/-- The best levels so far, with the level before them if there is one. -/
def levelsFrom (long : Bool) : Option α → List α → List α
  | none => Stop.ratchet long
  | some level => Position.bestFrom long level

end Chartist.Indexed
