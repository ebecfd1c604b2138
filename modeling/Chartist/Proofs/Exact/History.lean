import Chartist.Proofs.Exact.Chandelier
import Chartist.Proofs.Exact.Gap
import Mathlib.Algebra.BigOperators.Intervals

/-!
# Smoothing as a weighted sum of the past

A step of smoothing by a factor takes that part of the new value and leaves one less the factor of
everything before it. Unrolled over all steps, an output is the sum of the values so far, each with
its own factor times what the later steps left of it (`share`); the first value has no factor, for it
was the whole first output. The shares of an output sum to 1 (`sum_share`), and what smooths a series
or a price of bars answers these sums (`smoothing_unrolled`).
-/

namespace Chartist

open Chartist.Filter Adaptive Scalar

/-! ## Shares -/

section Shares

variable {K : Type} [CommRing K]

/-- What the steps behind index `j`, up to index `i`, leave of the output at `j`. -/
def kept (factors : List K) (j i : Nat) : K := ∏ k ∈ Finset.Ioc j i, (1 - factors.getD k 0)

/-- The share of the value at index `j` in the output at index `i`. -/
def share (factors : List K) (i j : Nat) : K :=
  (if j = 0 then 1 else factors.getD j 0) * kept factors j i

/-- The sum of the values up to an index, each with its share. -/
def history (values factors : List K) (i : Nat) : K :=
  ∑ j ∈ Finset.range (i + 1), share factors i j * values.getD j 0

theorem kept_self (factors : List K) (i : Nat) : kept factors i i = 1 := by
  rw [kept, Finset.Ioc_self, Finset.prod_empty]

theorem share_zero (factors : List K) : share factors 0 0 = 1 := by
  rw [share, if_pos rfl, kept_self, one_mul]

theorem share_self (factors : List K) (i : Nat) :
    share factors (i + 1) (i + 1) = factors.getD (i + 1) 0 := by
  rw [share, if_neg (Nat.succ_ne_zero i), kept_self, mul_one]

/-- One more step leaves the same part of every share. -/
theorem share_succ (factors : List K) {i j : Nat} (before : j ≤ i) :
    share factors (i + 1) j = (1 - factors.getD (i + 1) 0) * share factors i j := by
  rw [share, share, kept, kept, ← Finset.insert_Ioc_right_eq_Ioc_add_one before,
    Finset.prod_insert (by simp), mul_left_comm]

/-- The sum of any terms by their shares, one step further. -/
theorem sum_share_succ (factors : List K) (i : Nat) (term : Nat → K) :
    ∑ j ∈ Finset.range (i + 1 + 1), share factors (i + 1) j * term j =
      (1 - factors.getD (i + 1) 0) * ∑ j ∈ Finset.range (i + 1), share factors i j * term j +
        factors.getD (i + 1) 0 * term (i + 1) := by
  rw [Finset.sum_range_succ, share_self, Finset.mul_sum]
  congr 1
  refine Finset.sum_congr rfl fun j member => ?_
  rw [share_succ factors (Nat.le_of_lt_succ (Finset.mem_range.mp member)), mul_assoc]

/-- The shares of an output are parts of one whole. -/
theorem sum_share (factors : List K) (i : Nat) :
    ∑ j ∈ Finset.range (i + 1), share factors i j = 1 := by
  induction i with
  | zero => rw [Finset.sum_range_one, share_zero]
  | succ i ih =>
      have step := sum_share_succ factors i fun _ => 1
      simp only [mul_one, ih] at step
      rw [step, sub_add_cancel]

theorem history_zero (values factors : List K) : history values factors 0 = values.getD 0 0 := by
  rw [history, Finset.sum_range_one, share_zero, one_mul]

/-- The weighted sum makes the step of smoothing. -/
theorem history_succ (values factors : List K) (i : Nat) :
    history values factors (i + 1) = history values factors i +
      factors.getD (i + 1) 0 * (values.getD (i + 1) 0 - history values factors i) := by
  have step := sum_share_succ factors i fun j => values.getD j 0
  rw [history, step, ← history]
  ring

end Shares

/-! ## Smoothing -/

variable {α : Type} [Scalar α]

/-- One output for each value: the sum of the values so far, each with its share. -/
def Unrolls {K : Type} [Field K] (num : K → α) (data alphas output : List α) : Prop :=
  ∃ values factors : List K, data = values.map num ∧ alphas = factors.map num ∧
    factors.length = values.length ∧
    output = (List.range values.length).map fun i => num (history values factors i)

/-- The factors by which an indicator smooths its series, if that is all it does. -/
def SeriesIndicator.factors? (i : SeriesIndicator α) (data : Series α) : Option (Series α) :=
  match i with
  | .exponential _ alpha => some (List.replicate data.length alpha)
  | .average .exponential period => some (List.replicate data.length (emaAlpha period))
  | .smoothed period | .average .smoothed period =>
    some (List.replicate data.length (smmaAlpha period))
  | .efficiencyAverage period fast slow => some ((Rule.efficiency period fast slow).alphas data)
  | .momentumAverage period length => some ((Rule.momentum period length).alphas data)
  | _ => none

/-- What an indicator smooths, and its factors, if that is all it does. -/
def BarIndicator.smoothing? (i : BarIndicator) (bars : Bars α) : Option (Series α × Series α) :=
  match i with
  | .averageTrueRange period =>
    some (bars.trueRanges, List.replicate bars.trueRanges.length (smmaAlpha period))
  | .volatilityAverage period short long measure source =>
    some (bars.price source,
      volatilityAlphas period short long measure (bars.price source) bars.trueRanges)
  | .fractalAverage period source =>
    some (bars.price source, fractalAlphas (bars.price .high) (bars.price .low) period)
  | _ => none

theorem SeriesIndicator.values_of_factors {i : SeriesIndicator α} {data alphas : Series α}
    (known : i.factors? data = some alphas) : i.values data = smoothBy data alphas := by
  cases i with
  | average method period =>
      cases method with
      | exponential | smoothed =>
          cases known
          exact smooth_eq_smoothBy _ data
      | simple | linear => cases known
  | exponential | smoothed =>
      cases known
      exact smooth_eq_smoothBy _ data
  | efficiencyAverage | momentumAverage =>
      cases known
      rfl
  | _ => cases known

theorem BarIndicator.values_of_smoothing {i : BarIndicator} {bars : Bars α}
    {price alphas : Series α} (known : i.smoothing? bars = some (price, alphas)) :
    i.values bars = smoothBy price alphas := by
  cases i with
  | averageTrueRange period =>
      cases known
      exact smooth_eq_smoothBy _ bars.trueRanges
  | volatilityAverage | fractalAverage =>
      cases known
      rfl
  | _ => cases known

section Exact

variable {K : Type} [Field K] [LinearOrder K] {num : K → α} (exact : Exact num)
include exact

theorem unrolls_smoothBy {data alphas : List α} (finite : ∀ x ∈ data, isFinite x = true)
    (finiteAlphas : ∀ a ∈ alphas, isFinite a = true) (aligned : alphas.length = data.length) :
    Unrolls num data alphas (smoothBy data alphas) := by
  obtain ⟨values, rfl⟩ := exact.exists_map finite
  obtain ⟨factors, rfl⟩ := exact.exists_map finiteAlphas
  refine ⟨values, factors, rfl, rfl, by simpa using aligned, List.ext_getElem? fun i => ?_⟩
  by_cases inside : i < values.length
  · have number {ks : List K} {i : Nat} {x : α} (here : (ks.map num)[i]? = some x) :
        x = num (ks.getD i 0) := by
      rw [List.getElem?_map, Option.map_eq_some_iff] at here
      obtain ⟨k, known, rfl⟩ := here
      rw [List.getD_eq_getElem?_getD, known, Option.getD_some]
    obtain ⟨out, here, rfl⟩ := smoothBy_induction aligned
      (fun i out => out = num (history values factors i))
      (fun x here => by rw [number here, history_zero])
      (fun i before x a sum value factor => by
        rw [sum, number value, number factor, exact.approach, history_succ])
      (by simpa using inside)
    rw [here, List.getElem?_map, List.getElem?_range inside, Option.map_some]
  · rw [List.getElem?_eq_none, List.getElem?_eq_none]
    · simpa using inside
    · rw [length_smoothBy aligned]
      simpa using inside

theorem unrolls_smooth {alpha : α} (finiteAlpha : isFinite alpha = true) {data : List α}
    (finite : ∀ x ∈ data, isFinite x = true) :
    Unrolls num data (List.replicate data.length alpha) (smooth alpha data) := by
  rw [smooth_eq_smoothBy]
  refine unrolls_smoothBy exact finite ?_ List.length_replicate
  intro a member
  rwa [List.eq_of_mem_replicate member]

theorem Unrolls.finite {data alphas output : List α}
    (unrolls : Unrolls num data alphas output) : ∀ x ∈ output, isFinite x = true := by
  obtain ⟨values, factors, -, -, -, rfl⟩ := unrolls
  rw [List.forall_mem_map]
  intro i _
  exact exact.finite _

/-- Each stage of a cascade smooths the one before it. -/
theorem unrolls_stages {alpha : α} (finiteAlpha : isFinite alpha = true) {data : List α}
    (finite : ∀ x ∈ data, isFinite x = true) {depth k : Nat} (inside : k < depth) :
    ∃ input output, (data :: stages alpha depth data)[k]? = some input ∧
      (stages alpha depth data)[k]? = some output ∧
      Unrolls num input (List.replicate input.length alpha) output := by
  induction depth generalizing data k with
  | zero => exact absurd inside k.not_lt_zero
  | succ depth ih =>
      have first := unrolls_smooth exact finiteAlpha finite
      cases k with
      | zero => exact ⟨_, _, rfl, rfl, first⟩
      | succ k => exact ih (first.finite exact) (Nat.lt_of_succ_lt_succ inside)

theorem unrolls_of_factors {data alphas : List α} (finite : ∀ x ∈ data, isFinite x = true)
    {least : K} {lookback : Nat} (factors : Factors (num least) data.length lookback alphas) :
    Unrolls num data alphas (smoothBy data alphas) :=
  unrolls_smoothBy exact finite (factors.finite exact) factors.length

/-! ## Indicators -/

variable [IsStrictOrderedRing K]

theorem SeriesIndicator.unrolls {i : SeriesIndicator α} (accepted : i.validate = .ok ())
    {data alphas : Series α} (finite : ∀ x ∈ data, isFinite x = true)
    (known : i.factors? data = some alphas) : Unrolls num data alphas (i.values data) := by
  have adaptive (rule : Rule) :
      Unrolls num data (rule.alphas data) (smoothBy data (rule.alphas data)) :=
    unrolls_of_factors exact finite (exact.zero ▸ exact.comparable.factors_alphas rule data)
  have exponential (period : Nat) : isFinite (emaAlpha period : α) = true := by
    rw [exact.emaAlpha]
    exact exact.finite _
  have smoothed {period : Nat} (positive : 0 < period) :
      isFinite (smmaAlpha period : α) = true := by
    rw [exact.smmaAlpha positive]
    exact exact.finite _
  cases i with
  | exponential period alpha =>
      cases known
      obtain ⟨_, -, rest⟩ := exists_of_bind_ok accepted
      obtain ⟨_, passed, -⟩ := exists_of_bind_ok rest
      rw [exact.zero, exact.one] at passed
      obtain ⟨k, rfl, -⟩ := exact.of_checkRange passed
      exact unrolls_smooth exact (exact.finite k) finite
  | average method period =>
      obtain ⟨_, passed, -⟩ := exists_of_bind_ok accepted
      cases method with
      | exponential =>
          cases known
          exact unrolls_smooth exact (exponential period) finite
      | smoothed =>
          cases known
          exact unrolls_smooth exact (smoothed (checkPeriod_pos passed)) finite
      | simple | linear => cases known
  | smoothed period =>
      cases known
      obtain ⟨_, passed, -⟩ := exists_of_bind_ok accepted
      exact unrolls_smooth exact (smoothed (checkPeriod_pos passed)) finite
  | efficiencyAverage | momentumAverage =>
      cases known
      exact adaptive _
  | _ => cases known

theorem BarIndicator.unrolls (ordinary : Ordinary num) {i : BarIndicator}
    (accepted : (i.validate : Except (StudyError α) Unit) = .ok ()) {bars : Bars α}
    (finite : ∀ bar ∈ bars, bar.Finite) {price alphas : Series α}
    (known : i.smoothing? bars = some (price, alphas)) :
    Unrolls num price alphas (i.values bars) := by
  have finitePrice (source : PriceSource) : ∀ x ∈ bars.price source, isFinite x = true :=
    List.forall_mem_map.mpr fun bar member => exact.finite_price (finite bar member) source
  cases i with
  | averageTrueRange period =>
      cases known
      obtain ⟨_, passed, -⟩ := exists_of_bind_ok accepted
      have nothing : ∀ close ∈ (none : Option α), isFinite close = true := nofun
      have finiteRanges : ∀ x ∈ bars.trueRanges, isFinite x = true :=
        Stop.finite_trueRangesFrom exact ordinary nothing fun bar member =>
          ⟨(finite bar member).high, (finite bar member).low, (finite bar member).close⟩
      have part : isFinite (smmaAlpha period : α) = true := by
        rw [exact.smmaAlpha (checkPeriod_pos passed)]
        exact exact.finite _
      exact unrolls_smooth exact part finiteRanges
  | volatilityAverage period short long measure source =>
      cases known
      exact unrolls_of_factors exact (finitePrice source)
        (exact.factors_volatilityPrice period short long measure source bars)
  | fractalAverage period source =>
      cases known
      exact unrolls_of_factors exact (finitePrice source)
        (exact.factors_fractalPrice period source bars)
  | _ => cases known

end Exact

/-- Smoothing by one factor is smoothing by that factor at every step, and an indicator that smooths
its series or a price of its bars and nothing else answers just that, in any arithmetic. With exact
arithmetic the shares of an output sum to 1, and what is smoothed is the sum of the values so far by
their shares: with any numbers for factors, stage by stage in a cascade, and in every such indicator. -/
theorem smoothing_unrolled :
    (∀ (alpha : α) (data : List α),
      smooth alpha data = smoothBy data (List.replicate data.length alpha)) ∧
    (∀ (i : SeriesIndicator α) (data alphas : Series α), i.factors? data = some alphas →
      i.values data = smoothBy data alphas) ∧
    (∀ (i : BarIndicator) (bars : Bars α) (price alphas : Series α),
      i.smoothing? bars = some (price, alphas) → i.values bars = smoothBy price alphas) ∧
    ∀ (K : Type) [Field K] [LinearOrder K] [IsStrictOrderedRing K] (num : K → α),
      Exact num → Ordinary num →
        (∀ (factors : List K) (i : Nat), ∑ j ∈ Finset.range (i + 1), share factors i j = 1) ∧
        (∀ data alphas : List α, (∀ x ∈ data, isFinite x = true) →
          (∀ a ∈ alphas, isFinite a = true) → alphas.length = data.length →
            Unrolls num data alphas (smoothBy data alphas)) ∧
        (∀ (alpha : α) (data : List α) (depth k : Nat), isFinite alpha = true →
          (∀ x ∈ data, isFinite x = true) → k < depth →
            ∃ input output, (data :: stages alpha depth data)[k]? = some input ∧
              (stages alpha depth data)[k]? = some output ∧
              Unrolls num input (List.replicate input.length alpha) output) ∧
        (∀ (i : SeriesIndicator α) (data alphas : Series α), i.validate = .ok () →
          (∀ x ∈ data, isFinite x = true) → i.factors? data = some alphas →
            Unrolls num data alphas (i.values data)) ∧
        ∀ (i : BarIndicator) (bars : Bars α) (price alphas : Series α),
          (i.validate : Except (StudyError α) Unit) = .ok () → (∀ bar ∈ bars, bar.Finite) →
            i.smoothing? bars = some (price, alphas) → Unrolls num price alphas (i.values bars) := by
  refine ⟨smooth_eq_smoothBy, fun _ _ _ => SeriesIndicator.values_of_factors,
    fun _ _ _ _ => BarIndicator.values_of_smoothing, ?_⟩
  intro K _ _ _ num exact ordinary
  refine ⟨sum_share, ?_, ?_, ?_, ?_⟩
  · intro data alphas finite finiteAlphas aligned
    exact unrolls_smoothBy exact finite finiteAlphas aligned
  · intro alpha data depth k finiteAlpha finite inside
    exact unrolls_stages exact finiteAlpha finite inside
  · intro i data alphas accepted finite known
    exact SeriesIndicator.unrolls exact accepted finite known
  · intro i bars price alphas accepted finite known
    exact BarIndicator.unrolls exact ordinary accepted finite known

/-- Three values, with a first factor that takes part in nothing; the stages of a cascade on them;
and the average true range of two bars. -/
theorem smoothing_unrolled_ratio :
    let data : List Ratio := [.of 10, .of 12, .of 11]
    let factors : List ℚ := [7, 1 / 2, 1 / 4]
    let halves : List Ratio := [.of (1 / 2), .of (1 / 2), .of (1 / 2)]
    let levels := stages (.of (1 / 2)) 2 data
    let bars : Bars Ratio :=
      [⟨0, .of 10, .of 12, .of 9, .of 11, .of 5⟩, ⟨60, .of 14, .of 15, .of 13, .of 14, .of 5⟩]
    let average : SeriesIndicator Ratio := .ema 3
    Exact Ratio.of ∧ Ordinary Ratio.of ∧ (∀ x ∈ data, isFinite x = true) ∧
    (∀ a ∈ factors.map Ratio.of, isFinite a = true) ∧
    (factors.map Ratio.of).length = data.length ∧
    (List.range 3).map (share factors 2) = [3 / 8, 3 / 8, 1 / 4] ∧
    ∑ j ∈ Finset.range 3, share factors 2 j = 1 ∧
    smoothBy data (factors.map Ratio.of) = [.of 10, .of 11, .of 11] ∧
    Unrolls Ratio.of data (factors.map Ratio.of) (smoothBy data (factors.map Ratio.of)) ∧
    smooth (.of (1 / 2)) data = smoothBy data halves ∧
    levels = [[.of 10, .of 11, .of 11], [.of 10, .of (21 / 2), .of (43 / 4)]] ∧
    (∃ input output, (data :: levels)[1]? = some input ∧ levels[1]? = some output ∧
      Unrolls Ratio.of input (List.replicate input.length (.of (1 / 2))) output) ∧
    average.validate = .ok () ∧ average.factors? data = some halves ∧
    Unrolls Ratio.of data halves (average.values data) ∧
    (∀ bar ∈ bars, bar.Finite) ∧
    (BarIndicator.averageTrueRange 2).smoothing? bars =
      some ([.of 3, .of 4], [.of (1 / 2), .of (1 / 2)]) ∧
    Unrolls Ratio.of [.of 3, .of 4] [.of (1 / 2), .of (1 / 2)]
      ((BarIndicator.averageTrueRange 2).values bars) := by
  intro data factors halves levels bars average
  have numbers : ∀ x ∈ data, isFinite x = true := by decide
  have finite : ∀ bar ∈ bars, bar.Finite := by
    intro bar member
    simp only [bars, List.mem_cons, List.not_mem_nil, or_false] at member
    rcases member with rfl | rfl <;> exact ⟨rfl, rfl, rfl, rfl, rfl⟩
  have inside : within 0 (emaAlpha 3) (1 : Ratio) = true := by decide +kernel
  have accepted : average.validate = .ok () := by
    simp only [average, SeriesIndicator.ema, SeriesIndicator.validate, checkRange, inside]
    rfl
  have known : average.factors? data = some halves := by decide +kernel
  have ranges : (BarIndicator.averageTrueRange 2).smoothing? bars =
      some ([.of 3, .of 4], [.of (1 / 2), .of (1 / 2)]) := by decide +kernel
  obtain ⟨constant, -, -, unrolled⟩ := smoothing_unrolled (α := Ratio)
  obtain ⟨whole, sums, cascade, onSeries, onBars⟩ :=
    unrolled ℚ Ratio.of Ratio.exact Ratio.ordinary
  exact ⟨Ratio.exact, Ratio.ordinary, numbers, by decide, rfl, by decide +kernel, whole factors 2,
    by decide +kernel, sums data _ numbers (by decide) rfl, constant _ data, by decide +kernel,
    cascade (.of (1 / 2)) data 2 1 rfl numbers Nat.one_lt_two, accepted, known,
    onSeries average data halves accepted numbers known, finite, ranges,
    onBars (.averageTrueRange 2) bars _ _ rfl finite ranges⟩

end Chartist
