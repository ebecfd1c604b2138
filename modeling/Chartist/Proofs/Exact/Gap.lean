import Chartist.Proofs.Exact.Range
import Chartist.Scalar.Binary64

/-!
# Gaps in adaptive averages

Each output is one step from the one before it (`smoothBy_succ`), and what is no number stays none
in arithmetic. Between numbers, a factor of 1 ends the step on the new value and a factor of 0 stays
where it was; a step from or to a gap leads to a gap, whatever the factor is. So an adaptive average
follows these laws until the first gap in its prices, and has nothing behind it (`gaps_persist`).
-/

namespace Chartist

open Chartist.Filter Scalar

variable {α : Type} [Scalar α]

/-! ## Output by output -/

theorem smoothByFrom_getElem? {level before x a : α} {values alphas : List α} {i : Nat}
    (last : (level :: smoothByFrom level values alphas)[i]? = some before)
    (value : values[i]? = some x) (factor : alphas[i]? = some a) :
    (smoothByFrom level values alphas)[i]? = some (approach a before x) := by
  induction i generalizing level values alphas with
  | zero =>
      cases values with
      | nil => cases value
      | cons x' rest =>
          cases alphas with
          | nil => cases factor
          | cons a' alphas =>
              cases value
              cases factor
              cases last
              rfl
  | succ i ih =>
      cases values with
      | nil => cases value
      | cons x' rest =>
          cases alphas with
          | nil => cases factor
          | cons a' alphas => exact ih last value factor

theorem smoothBy_zero (data alphas : List α) : (smoothBy data alphas)[0]? = data[0]? := by
  cases data <;> rfl

/-- Each output is a step from the output before it. -/
theorem smoothBy_succ {data alphas : List α} {i : Nat} {before x a : α}
    (last : (smoothBy data alphas)[i]? = some before) (value : data[i + 1]? = some x)
    (factor : alphas[i + 1]? = some a) :
    (smoothBy data alphas)[i + 1]? = some (approach a before x) := by
  cases data with
  | nil => cases value
  | cons first rest =>
      have later : (alphas.drop 1)[i]? = some a := by
        rw [List.getElem?_drop, Nat.add_comm]
        exact factor
      exact smoothByFrom_getElem? last value later

/-- What each output has, if the first value has it and every step keeps it. -/
theorem smoothBy_induction {data alphas : List α} (aligned : alphas.length = data.length)
    (p : Nat → α → Prop) (start : ∀ x, data[0]? = some x → p 0 x)
    (step : ∀ i before x a, p i before → data[i + 1]? = some x → alphas[i + 1]? = some a →
      p (i + 1) (approach a before x)) {i : Nat} (inside : i < data.length) :
    ∃ out, (smoothBy data alphas)[i]? = some out ∧ p i out := by
  induction i with
  | zero =>
      have here := List.getElem?_eq_getElem inside
      exact ⟨data[0], (smoothBy_zero data alphas).trans here, start _ here⟩
  | succ i ih =>
      obtain ⟨before, last, holds⟩ := ih (by omega)
      have value := List.getElem?_eq_getElem inside
      have factor := List.getElem?_eq_getElem (aligned.symm ▸ inside)
      exact ⟨_, smoothBy_succ last value factor, step i _ _ _ holds value factor⟩

/-! ## Steps from and to gaps -/

theorem Absorbing.approach (absorbing : Absorbing α) {a before x : α}
    (gap : isNaN before = true ∨ isNaN x = true) : isNaN (approach a before x) = true := by
  rcases gap with level | value
  · exact absorbing.add _ _ (.inl level)
  · exact absorbing.add _ _ (.inr (absorbing.mul _ _ (.inr (absorbing.sub _ _ (.inl value)))))

section Exact

variable {K : Type} [Field K] [LinearOrder K] {num : K → α} (exact : Exact num)
include exact

theorem Exact.finite_approach {a before x : α} (finiteA : Scalar.isFinite a = true)
    (finiteBefore : Scalar.isFinite before = true) (finiteX : Scalar.isFinite x = true) :
    Scalar.isFinite (Filter.approach a before x) = true := by
  obtain ⟨k, rfl⟩ := (exact.isFinite a).mp finiteA
  obtain ⟨level, rfl⟩ := (exact.isFinite before).mp finiteBefore
  obtain ⟨value, rfl⟩ := (exact.isFinite x).mp finiteX
  rw [exact.approach]
  exact exact.finite _

/-- Between numbers, the factor 1 passes the value on. -/
theorem Exact.approach_one {before x : α} (finiteBefore : Scalar.isFinite before = true)
    (finiteX : Scalar.isFinite x = true) : Filter.approach 1 before x = x := by
  obtain ⟨level, rfl⟩ := (exact.isFinite before).mp finiteBefore
  obtain ⟨value, rfl⟩ := (exact.isFinite x).mp finiteX
  rw [exact.one, exact.approach, one_mul, add_sub_cancel]

/-- Between numbers, the factor 0 holds the output. -/
theorem Exact.approach_zero {before x : α} (finiteBefore : Scalar.isFinite before = true)
    (finiteX : Scalar.isFinite x = true) : Filter.approach 0 before x = before := by
  obtain ⟨level, rfl⟩ := (exact.isFinite before).mp finiteBefore
  obtain ⟨value, rfl⟩ := (exact.isFinite x).mp finiteX
  rw [exact.zero, exact.approach, zero_mul, add_zero]

end Exact

/-- Factors in range are numbers. -/
theorem Factors.finite {K : Type} [Field K] [LinearOrder K] {num : K → α} (exact : Exact num)
    {least : K} {count lookback : Nat} {alphas : List α}
    (factors : Factors (num least) count lookback alphas) : ∀ a ∈ alphas, isFinite a = true := by
  intro a member
  have inside := factors.range a member
  rw [exact.one] at inside
  obtain ⟨k, rfl, -⟩ := exact.exists_of_within inside
  exact exact.finite k

/-! ## Until the first gap -/

/-- An output for each price: a number as long as no price is missing, which repeats the first
`lookback` prices, and a gap from the first missing price on. -/
structure UntilGap (lookback : Nat) (prices output : List α) : Prop where
  length : output.length = prices.length
  before : ∀ i y, output[i]? = some y → (∀ x ∈ prices.take (i + 1), isFinite x = true) →
    isFinite y = true ∧ (i < lookback → prices[i]? = some y)
  behind : ∀ i y, output[i]? = some y → (∃ x ∈ prices.take (i + 1), isNaN x = true) →
    isNaN y = true

section UntilGap

variable {K : Type} [Field K] [LinearOrder K] {num : K → α} (exact : Exact num)
  (absorbing : Absorbing α) {data alphas : List α} (aligned : alphas.length = data.length)
include aligned

include exact in
/-- Numbers lead to numbers, and a factor of 1 to the value itself. -/
theorem smoothBy_before_gap (finite : ∀ a ∈ alphas, isFinite a = true) {i : Nat}
    (inside : i < data.length) :
    ∃ out, (smoothBy data alphas)[i]? = some out ∧
      ((∀ x ∈ data.take (i + 1), isFinite x = true) →
        isFinite out = true ∧ (alphas[i]? = some 1 → data[i]? = some out)) := by
  refine smoothBy_induction aligned (fun i out =>
    (∀ x ∈ data.take (i + 1), isFinite x = true) →
      isFinite out = true ∧ (alphas[i]? = some 1 → data[i]? = some out)) ?_ ?_ inside
  · intro x here numbers
    have member : x ∈ data.take 1 :=
      List.mem_of_getElem? ((List.getElem?_take_of_lt one_pos).trans here)
    exact ⟨numbers x member, fun _ => here⟩
  · intro i before x a soFar value factor numbers
    have earlier : ∀ y ∈ data.take (i + 1), isFinite y = true := by
      intro y member
      exact numbers y (List.take_subset_take_left _ (by omega) member)
    have member : x ∈ data.take (i + 1 + 1) :=
      List.mem_of_getElem? ((List.getElem?_take_of_lt (by omega)).trans value)
    have finiteBefore := (soFar earlier).1
    have finiteX := numbers x member
    refine ⟨exact.finite_approach (finite a (List.mem_of_getElem? factor)) finiteBefore finiteX, ?_⟩
    intro one
    obtain rfl := Option.some_injective _ (factor.symm.trans one)
    rw [exact.approach_one finiteBefore finiteX, value]

include absorbing in
/-- From the first gap on there are only gaps. -/
theorem smoothBy_behind_gap {i : Nat} (inside : i < data.length) :
    ∃ out, (smoothBy data alphas)[i]? = some out ∧
      ((∃ x ∈ data.take (i + 1), isNaN x = true) → isNaN out = true) := by
  refine smoothBy_induction aligned (fun i out =>
    (∃ x ∈ data.take (i + 1), isNaN x = true) → isNaN out = true) ?_ ?_ inside
  · rintro x here ⟨y, member, gap⟩
    have first : data.take 1 = [x] := by
      rw [List.take_one, List.head?_eq_getElem?, here]
      rfl
    rw [first, List.mem_singleton] at member
    rwa [member] at gap
  · rintro i before x a soFar value factor ⟨y, member, gap⟩
    rw [List.take_add_one, value, Option.toList_some] at member
    rcases List.mem_append.mp member with earlier | here
    · exact absorbing.approach (.inl (soFar ⟨y, earlier, gap⟩))
    · rw [List.mem_singleton] at here
      exact absorbing.approach (.inr (here ▸ gap))

include exact absorbing in
theorem untilGap_smoothBy {lookback : Nat} (finite : ∀ a ∈ alphas, isFinite a = true)
    (ones : ∀ i, i < lookback → i < data.length → alphas[i]? = some 1) :
    UntilGap lookback data (smoothBy data alphas) := by
  have within {i : Nat} {y : α} (here : (smoothBy data alphas)[i]? = some y) : i < data.length := by
    have inside := (List.getElem?_eq_some_iff.mp here).1
    rwa [length_smoothBy aligned] at inside
  refine ⟨length_smoothBy aligned, ?_, ?_⟩
  · intro i y here numbers
    obtain ⟨out, isOut, before⟩ := smoothBy_before_gap exact aligned finite (within here)
    obtain rfl := Option.some_injective _ (isOut.symm.trans here)
    obtain ⟨finiteOut, follows⟩ := before numbers
    exact ⟨finiteOut, fun early => follows (ones i early (within here))⟩
  · intro i y here gap
    obtain ⟨out, isOut, behind⟩ := smoothBy_behind_gap absorbing aligned (within here)
    obtain rfl := Option.some_injective _ (isOut.symm.trans here)
    exact behind gap

omit aligned in
include exact absorbing in
theorem untilGap_of_factors {least : K} {lookback : Nat}
    (factors : Factors (num least) data.length lookback alphas) :
    UntilGap lookback data (smoothBy data alphas) := by
  exact untilGap_smoothBy exact absorbing factors.length (factors.finite exact) factors.ones

end UntilGap

/-- Gaps stay in adaptive averages. Between numbers a factor of 1 passes the value on and a factor
of 0 holds the output, but a step from or to a gap leads to a gap, whatever the factor is. So what
is smoothed with numbers for factors, and every adaptive average in particular, is a number until
the first gap in its prices and a gap from there on; until then it repeats the prices of its
lookback. -/
theorem gaps_persist {K : Type} [Field K] [LinearOrder K] [IsStrictOrderedRing K] {num : K → α}
    (exact : Exact num) (absorbing : Absorbing α) :
    (∀ (data alphas : List α) (i : Nat) (x a : α), alphas.length = data.length →
      data[i + 1]? = some x → alphas[i + 1]? = some a →
        ∃ before out, (smoothBy data alphas)[i]? = some before ∧
          (smoothBy data alphas)[i + 1]? = some out ∧
          (isNaN before = true ∨ isNaN x = true → isNaN out = true) ∧
          (isFinite before = true → isFinite x = true →
            (a = 1 → out = x) ∧ (a = 0 → out = before))) ∧
    (∀ data alphas : List α, alphas.length = data.length → (∀ a ∈ alphas, isFinite a = true) →
      UntilGap 0 data (smoothBy data alphas)) ∧
    (∀ (i : SeriesIndicator α) (data : Series α), i.isAdaptive = true →
      UntilGap i.lookback data (i.values data)) ∧
    ∀ (i : BarIndicator) (source : PriceSource) (bars : Bars α), i.smoothedPrice = some source →
      UntilGap i.lookback (bars.price source) (i.values bars) := by
  refine ⟨?_, ?_, ?_, ?_⟩
  · intro data alphas i x a aligned value factor
    have inside : i < (smoothBy data alphas).length := by
      have within := (List.getElem?_eq_some_iff.mp value).1
      rw [length_smoothBy aligned]
      omega
    have last := List.getElem?_eq_getElem inside
    refine ⟨_, _, last, smoothBy_succ last value factor, absorbing.approach, ?_⟩
    intro finiteBefore finiteX
    constructor
    · rintro rfl
      exact exact.approach_one finiteBefore finiteX
    · rintro rfl
      exact exact.approach_zero finiteBefore finiteX
  · intro data alphas aligned finite
    exact untilGap_smoothBy exact absorbing aligned finite fun i early => absurd early i.not_lt_zero
  · intro i data adaptive
    obtain ⟨alphas, values, factors⟩ := exact.series_factors adaptive data
    rw [values]
    exact untilGap_of_factors exact absorbing factors
  · intro i source bars smoothed
    obtain ⟨least, alphas, -, values, factors⟩ := exact.bars_factors smoothed bars
    rw [values]
    exact untilGap_of_factors exact absorbing factors

/-- An efficiency average over one change follows its prices to 98/9; then one price is missing, and
so is every output from there on. -/
theorem gaps_persist_ratio :
    let gap : Ratio := nan
    let data : Series Ratio := [.of 10, .of 12, gap, .of 11]
    let average : SeriesIndicator Ratio := .efficiencyAverage 1 2 5
    Exact Ratio.of ∧ Absorbing Ratio ∧ average.validate = .ok () ∧ average.isAdaptive = true ∧
    average.values data = [.of 10, .of (98 / 9), gap, gap] ∧
    UntilGap 1 data (average.values data) ∧
    (∃ before out, (smoothBy data [1, 1, 0, 1])[2]? = some before ∧
      (smoothBy data [1, 1, 0, 1])[3]? = some out ∧
      (isNaN before = true ∨ isNaN (Ratio.of 11) = true → isNaN out = true)) := by
  intro gap data average
  obtain ⟨steps, -, series, -⟩ := gaps_persist Ratio.exact Ratio.absorbing
  obtain ⟨before, out, last, next, gaps, -⟩ := steps data [1, 1, 0, 1] 2 (.of 11) 1 rfl rfl rfl
  exact ⟨Ratio.exact, Ratio.absorbing, rfl, rfl, by decide +kernel, series average data rfl, before,
    out, last, next, gaps⟩

/-- Behind a gap, a factor of 0 does not hold the output and a factor of 1 does not pass the value
on. -/
theorem gap_defeats_factors :
    let data : List Float := [1, nan, 3]
    let alphas : List Float := [1, 0, 1]
    ∃ out later : Float, smoothBy data alphas = [1, out, later] ∧
      alphas[1]? = some 0 ∧ isNaN (1 : Float) = false ∧ isNaN out = true ∧
      alphas[2]? = some 1 ∧ data[2]? = some 3 ∧ isNaN (3 : Float) = false ∧
      isNaN later = true := by
  refine ⟨_, _, rfl, rfl, ?_, ?_, rfl, rfl, ?_, ?_⟩
  all_goals decide +kernel

end Chartist
