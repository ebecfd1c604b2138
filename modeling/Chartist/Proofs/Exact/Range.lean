import Chartist.Indicator.OnBars
import Chartist.Indicator.OnSeries
import Chartist.Proofs.Causal.Indicator
import Chartist.Proofs.Ratio
import Mathlib.Tactic.Linarith

/-!
# Adaptive averages stay in range

The smoothing factors of every rule lie between 0 and 1, whatever the statistics behind them
came to (`Factors`). Each step of an adaptive average is then a convex combination of a value
that is between prices seen so far and the next price, so by induction the whole average stays
between prices that it has seen (`Tracks`).
-/

namespace Chartist

open Chartist.Filter Adaptive Scalar

variable {α : Type} [Scalar α]

/-! ## The averages -/

/-- The averages on a series whose factors follow a rule. -/
def SeriesIndicator.isAdaptive : SeriesIndicator α → Bool
  | .efficiencyAverage .. | .momentumAverage .. => true
  | _ => false

/-- The price that an adaptive average on bars smooths. -/
def BarIndicator.smoothedPrice : BarIndicator → Option PriceSource
  | .volatilityAverage _ _ _ _ source | .fractalAverage _ source => some source
  | _ => none

/-- All numbers of a bar are finite. -/
structure Bar.Finite (bar : Bar α) : Prop where
  opening : isFinite bar.opening = true
  high : isFinite bar.high = true
  low : isFinite bar.low = true
  close : isFinite bar.close = true
  volume : isFinite bar.volume = true

/-! ## Smoothing factors -/

/-- One factor for each of `count` values, from `least` up to 1, the first `lookback` of them
exactly 1. -/
structure Factors (least : α) (count lookback : Nat) (alphas : List α) : Prop where
  length : alphas.length = count
  range : ∀ a ∈ alphas, within least a 1 = true
  ones : ∀ i, i < lookback → i < count → alphas[i]? = some 1

namespace Comparable

variable (comparable : Comparable α)
include comparable

/-- The factor 1 of the first values is in range itself. -/
theorem within_one {least : α} (finite : isFinite least = true) (ordered : lt 1 least = false) :
    within least (1 : α) 1 = true := by
  have below := comparable.le_of_not_lt least 1 finite comparable.finite_one ordered
  rw [within, below, comparable.le_refl 1 comparable.finite_one]
  rfl

theorem within_clampAlpha (alpha : α) : within 0 (clampAlpha alpha) 1 = true := by
  unfold clampAlpha
  by_cases finite : isFinite alpha = true
  · rw [if_pos finite]
    exact comparable.within_clamp finite comparable.finite_zero comparable.finite_one
      comparable.zero_le_one
  · -- the output is held
    rw [if_neg finite, within, comparable.le_refl 0 comparable.finite_zero]
    exact comparable.le_of_not_lt 0 1 comparable.finite_zero comparable.finite_one
      comparable.zero_le_one

theorem within_dimensionAlpha (dimension : α) :
    within 0.01 (dimensionAlpha dimension) 1 = true := by
  unfold dimensionAlpha
  by_cases finite : isFinite (exp (-4.6 * (dimension - 1))) = true
  · rw [if_pos finite]
    exact comparable.within_clamp finite comparable.finite_least comparable.finite_one
      comparable.least_le_one
  · rw [if_neg finite, minFractalAlpha, within,
      comparable.le_refl 0.01 comparable.finite_least]
    exact comparable.le_of_not_lt 0.01 1 comparable.finite_least comparable.finite_one
      comparable.least_le_one

theorem factors_afterLookback {f : α → α} (inRange : ∀ x, within 0 (f x) 1 = true)
    (lookback : Nat) (xs : List α) :
    Factors 0 xs.length lookback (afterLookback lookback f xs) where
  length := List.length_mapIdx
  range a member := by
    obtain ⟨i, inside, rfl⟩ := List.mem_mapIdx.mp member
    by_cases early : i < lookback
    · rw [if_pos early]
      exact comparable.within_one comparable.finite_zero comparable.zero_le_one
    · rw [if_neg early]
      exact inRange _
  ones i early inside := by
    rw [afterLookback, List.getElem?_mapIdx, List.getElem?_eq_getElem inside, Option.map_some,
      if_pos early]

theorem factors_ratioAlphas (ratios : List α) (period lookback : Nat) :
    Factors 0 ratios.length lookback (ratioAlphas ratios period lookback) :=
  comparable.factors_afterLookback (fun _ => comparable.within_clampAlpha _) lookback ratios

theorem factors_alphas (rule : Rule) (data : List α) :
    Factors 0 data.length rule.lookback (rule.alphas data) := by
  cases rule with
  | efficiency period fast slow =>
      have factors := comparable.factors_afterLookback (f := (kamaAlpha · fast slow))
        (fun _ => comparable.within_clampAlpha _) period (efficiencyRatio data period)
      rwa [(causal_efficiencyRatio period).length] at factors
  | momentum period length =>
      have factors := comparable.factors_ratioAlphas
        ((Adaptive.momentum data length).map Scalar.abs) period length
      rwa [List.length_map, (causal_momentum length).length] at factors
  | volatility period short long =>
      have factors := comparable.factors_ratioAlphas (deviationRatio data short long) period long
      have ratios : Causal fun data : List α => deviationRatio data short long :=
        (Causal.rolling _ short).zipWith (.rolling _ long) _
      rwa [ratios.length] at factors

/-- The factors that drive the average on bars, whichever measure of volatility they use. -/
theorem factors_volatilityAlphas (period short long : Nat) (measure : VolatilityMeasure)
    {price trueRanges : Series α} (aligned : trueRanges.length = price.length) :
    Factors 0 price.length long
      (BarIndicator.volatilityAlphas period short long measure price trueRanges) := by
  cases measure with
  | deviation => exact comparable.factors_alphas (.volatility period short long) price
  | trueRange =>
      have factors := comparable.factors_ratioAlphas (meanRatio trueRanges short long) period long
      have ratios : Causal fun data : List α => meanRatio data short long :=
        (Causal.rolling _ short).zipWith (.rolling _ long) _
      rwa [ratios.length, aligned] at factors

/-- Each index steps the dimension and answers a factor for it; all that a factor needs is to
be made from some dimension. -/
theorem factors_fractalAlphasFrom (highs lows : List α) (period : Nat) (dimension : α)
    (indices : List Nat) :
    (∀ a ∈ fractalAlphasFrom highs lows period dimension indices, within 0.01 a 1 = true) ∧
    ∀ i index : Nat, indices[i]? = some index → index + 1 < period →
      (fractalAlphasFrom highs lows period dimension indices)[i]? = some 1 := by
  have one := comparable.within_one comparable.finite_least comparable.least_le_one
  induction indices generalizing dimension with
  | nil => exact ⟨fun _ member => absurd member List.not_mem_nil, fun _ _ here => by cases here⟩
  | cons first rest ih =>
      by_cases early : first + 1 < period
      · obtain ⟨range, ones⟩ := ih dimension
        simp only [fractalAlphasFrom, if_pos early]
        refine ⟨List.forall_mem_cons.mpr ⟨one, range⟩, ?_⟩
        intro i index here short
        cases i with
        | zero => rfl
        | succ i => exact ones i index here short
      · simp only [fractalAlphasFrom, if_neg early]
        obtain ⟨range, ones⟩ := ih ((fractalDimension (channelSlopes
          (Window.trailing highs first period) (Window.trailing lows first period)
          (period / 2) period)).getD dimension)
        refine ⟨List.forall_mem_cons.mpr ⟨comparable.within_dimensionAlpha _, range⟩, ?_⟩
        intro i index here short
        cases i with
        | zero =>
            cases here
            exact absurd short early
        | succ i => exact ones i index here short

theorem factors_fractalAlphas (highs lows : List α) (period : Nat) :
    Factors 0.01 (min highs.length lows.length) (period - 1) (fractalAlphas highs lows period) := by
  obtain ⟨range, ones⟩ := comparable.factors_fractalAlphasFrom highs lows period 1
    (List.range (min highs.length lows.length))
  refine ⟨?_, range, ?_⟩
  · rw [fractalAlphas, (causal_fractalAlphasFrom ..).length, List.length_range]
  · intro i early inside
    exact ones i i (List.getElem?_range inside) (by omega)

end Comparable

/-! ## Staying between the prices seen -/

/-- An output for each price that lies between prices up to there, and repeats the first
`lookback` of them. -/
structure Tracks (lookback : Nat) (prices output : List α) : Prop where
  length : output.length = prices.length
  between : ∀ i y, output[i]? = some y →
    ∃ lo ∈ prices.take (i + 1), ∃ hi ∈ prices.take (i + 1), within lo y hi = true
  start : ∀ i, i < lookback → output[i]? = prices[i]?

variable {K : Type} [Field K] [LinearOrder K] [IsStrictOrderedRing K]

/-- A number between two numbers of a list. -/
def Spanned (seen : List K) (x : K) : Prop := (∃ lo ∈ seen, lo ≤ x) ∧ ∃ hi ∈ seen, x ≤ hi

omit [Field K] [IsStrictOrderedRing K] in
theorem Spanned.of_mem {seen : List K} {x : K} (member : x ∈ seen) : Spanned seen x :=
  ⟨⟨x, member, le_rfl⟩, ⟨x, member, le_rfl⟩⟩

/-- A step of a part of the way stays between where it starts and where it heads to. -/
theorem Spanned.approach {seen : List K} {level value alpha : K} (inside : Spanned seen level)
    (nonneg : 0 ≤ alpha) (leOne : alpha ≤ 1) :
    Spanned (seen ++ [value]) (level + alpha * (value - level)) := by
  obtain ⟨⟨lo, loSeen, above⟩, ⟨hi, hiSeen, below⟩⟩ := inside
  have new : value ∈ seen ++ [value] := List.mem_append_right _ (List.mem_singleton.mpr rfl)
  have old {x : K} (member : x ∈ seen) : x ∈ seen ++ [value] := List.mem_append_left _ member
  rcases le_total level value with up | down
  · -- from the level upwards, by no more than the whole way
    have step : 0 ≤ alpha * (value - level) := mul_nonneg nonneg (sub_nonneg.mpr up)
    have whole : alpha * (value - level) ≤ value - level :=
      mul_le_of_le_one_left (sub_nonneg.mpr up) leOne
    exact ⟨⟨lo, old loSeen, by linarith⟩, ⟨value, new, by linarith⟩⟩
  · have step : 0 ≤ alpha * (level - value) := mul_nonneg nonneg (sub_nonneg.mpr down)
    have whole : alpha * (level - value) ≤ level - value :=
      mul_le_of_le_one_left (sub_nonneg.mpr down) leOne
    have turned : alpha * (value - level) = -(alpha * (level - value)) := by
      rw [← mul_neg, neg_sub]
    rw [turned]
    exact ⟨⟨value, new, by linarith⟩, ⟨hi, old hiSeen, by linarith⟩⟩

namespace Exact

variable {num : K → α} (exact : Exact num)
include exact

omit [IsStrictOrderedRing K] in
theorem approach (alpha level value : K) :
    Filter.approach (num alpha) (num level) (num value) =
      num (level + alpha * (value - level)) := by
  rw [Filter.approach, exact.sub, exact.mul, exact.add]

/-- The invariant of a run is that the level is between numbers seen; a factor of 1 ends the
step on the price itself. -/
theorem smoothByFrom {seen : List K} {level : K} {values alphas : List K}
    (inside : Spanned seen level) (inRange : ∀ a ∈ alphas, 0 ≤ a ∧ a ≤ 1)
    (aligned : alphas.length = values.length) :
    ∃ outs : List K,
      Filter.smoothByFrom (num level) (values.map num) (alphas.map num) = outs.map num ∧
      outs.length = values.length ∧
      ∀ i y, outs[i]? = some y → Spanned (seen ++ values.take (i + 1)) y ∧
        (alphas[i]? = some 1 → values[i]? = some y) := by
  induction values generalizing seen level alphas with
  | nil => exact ⟨[], rfl, rfl, fun i y here => by cases here⟩
  | cons value rest ih =>
      cases alphas with
      | nil => cases aligned
      | cons alpha alphas =>
          obtain ⟨⟨nonneg, leOne⟩, later⟩ := List.forall_mem_cons.mp inRange
          have stepped : Spanned (seen ++ [value]) (level + alpha * (value - level)) :=
            inside.approach nonneg leOne
          obtain ⟨outs, run, length, spanned⟩ := ih stepped later (Nat.succ.inj aligned)
          refine ⟨(level + alpha * (value - level)) :: outs, ?_, ?_, ?_⟩
          · simp only [List.map_cons, Filter.smoothByFrom, exact.approach, run]
          · rw [List.length_cons, List.length_cons, length]
          · intro i y here
            cases i with
            | zero =>
                cases here
                refine ⟨stepped, ?_⟩
                intro one
                cases one
                rw [one_mul, add_sub_cancel]
                rfl
            | succ i =>
                obtain ⟨between, follows⟩ := spanned i y here
                rw [List.append_assoc] at between
                exact ⟨between, follows⟩

/-- The first output is the first value; from it on the run goes over the others. -/
theorem smoothBy {values alphas : List K} (inRange : ∀ a ∈ alphas, 0 ≤ a ∧ a ≤ 1)
    (aligned : alphas.length = values.length) :
    ∃ outs : List K,
      Filter.smoothBy (values.map num) (alphas.map num) = outs.map num ∧
      outs.length = values.length ∧
      ∀ i y, outs[i]? = some y → Spanned (values.take (i + 1)) y ∧
        (i = 0 ∨ alphas[i]? = some 1 → values[i]? = some y) := by
  cases values with
  | nil => exact ⟨[], rfl, rfl, fun i y here => by cases here⟩
  | cons first rest =>
      have later : ∀ a ∈ alphas.drop 1, 0 ≤ a ∧ a ≤ 1 := fun a member =>
        inRange a (List.mem_of_mem_drop member)
      have alignedLater : (alphas.drop 1).length = rest.length := by
        rw [List.length_drop, aligned, List.length_cons, Nat.add_sub_cancel]
      have started : Spanned [first] first := .of_mem (List.mem_singleton.mpr rfl)
      obtain ⟨outs, run, length, spanned⟩ := exact.smoothByFrom started later alignedLater
      refine ⟨first :: outs, ?_, ?_, ?_⟩
      · simp only [List.map_cons, Filter.smoothBy, ← List.map_drop, run]
      · rw [List.length_cons, List.length_cons, length]
      · intro i y here
        cases i with
        | zero =>
            cases here
            exact ⟨started, fun _ => rfl⟩
        | succ i =>
            obtain ⟨between, follows⟩ := spanned i y here
            refine ⟨between, ?_⟩
            rintro (first | one)
            · cases first
            · rw [List.getElem?_drop, Nat.add_comm] at follows
              exact follows one

/-- An average with factors from 0 to 1 tracks its prices. -/
theorem tracks_smoothBy {prices alphas : List α} {least : K} {lookback : Nat}
    (finite : ∀ x ∈ prices, Scalar.isFinite x = true) (nonneg : 0 ≤ least)
    (factors : Factors (num least) prices.length lookback alphas) :
    Tracks lookback prices (Filter.smoothBy prices alphas) := by
  have numbers : ∀ a ∈ alphas, ∃ k, (0 ≤ k ∧ k ≤ 1) ∧ a = num k := by
    intro a member
    have inside := factors.range a member
    rw [exact.one] at inside
    obtain ⟨k, rfl, above, below⟩ := exact.exists_of_within inside
    exact ⟨k, ⟨nonneg.trans above, below⟩, rfl⟩
  obtain ⟨values, rfl⟩ := exact.exists_map finite
  obtain ⟨fractions, rfl, inRange⟩ := exists_numbers numbers
  have aligned : fractions.length = values.length := by
    simpa only [List.length_map] using factors.length
  obtain ⟨outs, run, length, spanned⟩ := exact.smoothBy inRange aligned
  rw [run]
  refine ⟨?_, ?_, ?_⟩
  · rw [List.length_map, List.length_map, length]
  · intro i y here
    rw [List.getElem?_map, Option.map_eq_some_iff] at here
    obtain ⟨k, here, rfl⟩ := here
    obtain ⟨⟨lo, loSeen, above⟩, ⟨hi, hiSeen, below⟩⟩ := (spanned i k here).1
    rw [← List.map_take]
    exact ⟨num lo, List.mem_map_of_mem loSeen, num hi, List.mem_map_of_mem hiSeen,
      (exact.within lo k hi).mpr ⟨above, below⟩⟩
  · intro i early
    rw [List.getElem?_map, List.getElem?_map]
    by_cases inside : i < values.length
    · have one := factors.ones i early (by rwa [List.length_map])
      rw [List.getElem?_map, exact.one, Option.map_eq_some_iff] at one
      obtain ⟨k, here, same⟩ := one
      cases exact.injective same
      have known := List.getElem?_eq_getElem (length.symm ▸ inside)
      rw [(spanned i _ known).2 (.inr here), known]
    · have short : values.length ≤ i := Nat.not_lt.mp inside
      rw [List.getElem?_eq_none short, List.getElem?_eq_none (length.symm ▸ short)]

/-! ## What the averages track -/

theorem finite_price {bar : Bar α} (finite : bar.Finite) (source : PriceSource) :
    Scalar.isFinite (bar.price source) = true := by
  obtain ⟨high, isHigh⟩ := (exact.isFinite _).mp finite.high
  obtain ⟨low, isLow⟩ := (exact.isFinite _).mp finite.low
  obtain ⟨close, isClose⟩ := (exact.isFinite _).mp finite.close
  -- the divisor of a mean
  have divisor (n : Nat) : ((n + 1 : Nat) : K) ≠ 0 := Nat.cast_ne_zero.mpr (Nat.succ_ne_zero n)
  cases source with
  | opening => exact finite.opening
  | high => exact finite.high
  | low => exact finite.low
  | close => exact finite.close
  | volume => exact finite.volume
  | median =>
      rw [Bar.price, isHigh, isLow, exact.natLit, exact.add, exact.div _ _ (divisor 1)]
      exact exact.finite _
  | typical =>
      rw [Bar.price, isHigh, isLow, isClose, exact.natLit, exact.add, exact.add,
        exact.div _ _ (divisor 2)]
      exact exact.finite _
  | weighted =>
      rw [Bar.price, isHigh, isLow, isClose, exact.natLit 2, exact.natLit 4, exact.mul, exact.add,
        exact.add, exact.div _ _ (divisor 3)]
      exact exact.finite _

/-- An adaptive average on a series smooths it with factors in range. -/
theorem series_factors {i : SeriesIndicator α} (adaptive : i.isAdaptive = true) (data : Series α) :
    ∃ alphas, i.values data = Filter.smoothBy data alphas ∧
      Factors (num 0) data.length i.lookback alphas := by
  have factors (rule : Rule) : Factors (num 0) data.length rule.lookback (rule.alphas data) :=
    exact.zero ▸ exact.comparable.factors_alphas rule data
  cases i with
  | efficiencyAverage period fast slow => exact ⟨_, rfl, factors (.efficiency period fast slow)⟩
  | momentumAverage period length => exact ⟨_, rfl, factors (.momentum period length)⟩
  | _ => cases adaptive

/-- Factors that bars drive fit every price of theirs. -/
theorem factors_volatilityPrice (period short long : Nat) (measure : VolatilityMeasure)
    (source : PriceSource) (bars : Bars α) :
    Factors (num 0) (bars.price source).length long
      (BarIndicator.volatilityAlphas period short long measure (bars.price source)
        bars.trueRanges) := by
  have aligned : bars.trueRanges.length = (bars.price source).length := by
    rw [Bars.causal_trueRanges.length, (Bars.causal_price source).length]
  exact exact.zero ▸ exact.comparable.factors_volatilityAlphas period short long measure aligned

theorem factors_fractalPrice (period : Nat) (source : PriceSource) (bars : Bars α) :
    Factors (num (1 / 100)) (bars.price source).length (period - 1)
      (fractalAlphas (bars.price .high) (bars.price .low) period) := by
  have factors := exact.comparable.factors_fractalAlphas (bars.price .high) (bars.price .low) period
  rwa [(Bars.causal_price .high).length, (Bars.causal_price .low).length, Nat.min_self,
    ← (Bars.causal_price source).length, exact.least] at factors

/-- An adaptive average on bars smooths its price with factors in range. -/
theorem bars_factors {i : BarIndicator} {source : PriceSource}
    (smoothed : i.smoothedPrice = some source) (bars : Bars α) :
    ∃ (least : K) (alphas : List α), 0 ≤ least ∧
      i.values bars = Filter.smoothBy (bars.price source) alphas ∧
      Factors (num least) (bars.price source).length i.lookback alphas := by
  cases i with
  | volatilityAverage period short long measure source =>
      cases smoothed
      exact ⟨0, _, le_rfl, rfl, exact.factors_volatilityPrice period short long measure source bars⟩
  | fractalAverage period source =>
      cases smoothed
      exact ⟨1 / 100, _, by norm_num, rfl, exact.factors_fractalPrice period source bars⟩
  | _ => cases smoothed

theorem tracks_series {i : SeriesIndicator α} (adaptive : i.isAdaptive = true) {data : Series α}
    (finite : ∀ x ∈ data, Scalar.isFinite x = true) : Tracks i.lookback data (i.values data) := by
  obtain ⟨alphas, values, factors⟩ := exact.series_factors adaptive data
  rw [values]
  exact exact.tracks_smoothBy finite le_rfl factors

theorem tracks_bars {i : BarIndicator} {source : PriceSource}
    (smoothed : i.smoothedPrice = some source) {bars : Bars α} (finite : ∀ bar ∈ bars, bar.Finite) :
    Tracks i.lookback (bars.price source) (i.values bars) := by
  have numbers : ∀ x ∈ bars.price source, Scalar.isFinite x = true :=
    List.forall_mem_map.mpr fun bar member => exact.finite_price (finite bar member) source
  obtain ⟨least, alphas, nonneg, values, factors⟩ := exact.bars_factors smoothed bars
  rw [values]
  exact exact.tracks_smoothBy numbers nonneg factors

end Exact

/-- Whatever the statistics behind them come to, the factors of every rule are in range, and 1
until the rule applies. With exact arithmetic, every adaptive average on a series or on bars of
numbers therefore stays between prices that it has seen, and starts by repeating the price. -/
theorem adaptive_in_range (comparable : Comparable α) :
    (∀ (rule : Rule) (data : List α), Factors 0 data.length rule.lookback (rule.alphas data)) ∧
    (∀ (highs lows : List α) (period : Nat),
      Factors 0.01 (min highs.length lows.length) (period - 1)
        (fractalAlphas highs lows period)) ∧
    ∀ (K : Type) [Field K] [LinearOrder K] [IsStrictOrderedRing K] (num : K → α), Exact num →
      (∀ (i : SeriesIndicator α) (data : Series α), i.isAdaptive = true →
        (∀ x ∈ data, isFinite x = true) → Tracks i.lookback data (i.values data)) ∧
      ∀ (i : BarIndicator) (source : PriceSource) (bars : Bars α),
        i.smoothedPrice = some source → (∀ bar ∈ bars, bar.Finite) →
          Tracks i.lookback (bars.price source) (i.values bars) :=
  ⟨comparable.factors_alphas, comparable.factors_fractalAlphas, fun _ _ _ _ _ exact =>
    ⟨fun _ _ adaptive finite => exact.tracks_series adaptive finite,
      fun _ _ _ smoothed finite => exact.tracks_bars smoothed finite⟩⟩

/-- An efficiency average over one change and a fractal one over two bars: one of them comes to
98/9 between the prices 10 and 12, the other has the factor 10399/20059 on its last bar. -/
theorem adaptive_in_range_ratio :
    let data : Series Ratio := [.of 10, .of 12, .of 11]
    let bars : Bars Ratio :=
      [⟨0, .of 9, .of 11, .of 8, .of 10, .of 5⟩, ⟨60, .of 10, .of 13, .of 10, .of 12, .of 5⟩,
        ⟨120, .of 12, .of 12, .of 9, .of 10, .of 5⟩]
    let efficiency : SeriesIndicator Ratio := .efficiencyAverage 1 2 5
    let fractal : BarIndicator := .fractalAverage 2 .median
    Comparable Ratio ∧ Exact Ratio.of ∧ efficiency.validate = .ok () ∧
    Factors 0 3 1 ((Rule.efficiency 1 2 5).alphas data) ∧
    fractalAlphas (bars.price .high) (bars.price .low) 2 = [1, 1, .of (10399 / 20059)] ∧
    Factors 0.01 3 1 (fractalAlphas (bars.price .high) (bars.price .low) 2) ∧
    efficiency.values data = [.of 10, .of (98 / 9), .of (886 / 81)] ∧
    Tracks 1 data (efficiency.values data) ∧ (∀ bar ∈ bars, bar.Finite) ∧
    Tracks 1 (bars.price .median) (fractal.values bars) := by
  intro data bars efficiency fractal
  have numbers : ∀ x ∈ data, isFinite x = true := by decide
  have finite : ∀ bar ∈ bars, bar.Finite := by
    intro bar member
    simp only [bars, List.mem_cons, List.not_mem_nil, or_false] at member
    rcases member with rfl | rfl | rfl <;> exact ⟨rfl, rfl, rfl, rfl, rfl⟩
  obtain ⟨rules, fractals, averages⟩ := adaptive_in_range Ratio.exact.comparable
  obtain ⟨onSeries, onBars⟩ := averages ℚ Ratio.of Ratio.exact
  exact ⟨Ratio.exact.comparable, Ratio.exact, rfl, rules (.efficiency 1 2 5) data,
    by decide +kernel, fractals (bars.price .high) (bars.price .low) 2, by decide +kernel,
    onSeries efficiency data rfl numbers, finite, onBars fractal .median bars rfl finite⟩

end Chartist
