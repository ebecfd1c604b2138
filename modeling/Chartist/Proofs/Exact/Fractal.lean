import Chartist.Adaptive.Fractal
import Chartist.Proofs.Exact.Rank
import Chartist.Proofs.ExtendedReal
import Mathlib.Analysis.Complex.ExponentialBounds
import Mathlib.Analysis.SpecialFunctions.Log.Basic

/-!
# The dimension behind fractal factors

The range of a half of a window is at most that of the whole window, so the two halves together
climb at most four times as steeply as the whole (`Shown`), and the dimension that a window
shows is at most 2. The dimension is kept where a window shows none; so it is at most 2 at every
index (`lastDimension`), the factor for it stays above the least one, and is 1 just if the dimension
is at most 1. Main statement: `fractal_dimension_bounded`.
-/

namespace Chartist.Adaptive

open Window Scalar

variable {α : Type} [Scalar α]

/-! ## The dimension as it is carried along -/

/-- The dimension that the window at an index shows, if it is full and has a range. -/
def shownDimension (highs lows : List α) (period i : Nat) : Option α :=
  if i + 1 < period then none
  else fractalDimension (channelSlopes (trailing highs i period) (trailing lows i period)
    (period / 2) period)

/-- The dimension shown last up to an index, 1 before the first one. -/
def lastDimension (highs lows : List α) (period i : Nat) : α :=
  ((List.range (i + 1)).filterMap (shownDimension highs lows period)).getLastD 1

theorem lastDimension_succ (highs lows : List α) (period i : Nat) :
    lastDimension highs lows period (i + 1) =
      (shownDimension highs lows period (i + 1)).getD (lastDimension highs lows period i) := by
  rw [lastDimension, List.range_succ, List.filterMap_append, lastDimension]
  cases shown : shownDimension highs lows period (i + 1) with
  | none => simp [shown]
  | some d => simp [shown]

/-- The dimension shown at an index stays the last one as long as none is shown. -/
theorem lastDimension_eq {highs lows : List α} {period i j : Nat} {dimension : α} (before : j ≤ i)
    (shown : shownDimension highs lows period j = some dimension)
    (none : ∀ k, j < k → k ≤ i → shownDimension highs lows period k = none) :
    lastDimension highs lows period i = dimension := by
  induction i, before using Nat.le_induction with
  | base =>
      cases j with
      | zero => simp [lastDimension, shown]
      | succ j => rw [lastDimension_succ, shown, Option.getD_some]
  | succ i before ih =>
      rw [lastDimension_succ, none (i + 1) (Nat.lt_succ_of_le before) le_rfl, Option.getD_none]
      exact ih fun k after upTo => none k after (Nat.le_succ_of_le upTo)

/-- A dimension shown last is 1 or was shown at some index. -/
theorem lastDimension_cases (highs lows : List α) (period i : Nat) :
    lastDimension highs lows period i = 1 ∨
      ∃ j ≤ i, shownDimension highs lows period j = some (lastDimension highs lows period i) := by
  have last : lastDimension highs lows period i ∈
      1 :: (List.range (i + 1)).filterMap (shownDimension highs lows period) :=
    List.getLastD_mem_cons
  rcases List.mem_cons.mp last with first | member
  · exact .inl first
  · obtain ⟨j, inside, shown⟩ := List.mem_filterMap.mp member
    exact .inr ⟨j, Nat.le_of_lt_succ (List.mem_range.mp inside), shown⟩

/-- Each factor is the one for the dimension shown last. -/
theorem fractalAlphasFrom_getElem? (highs lows : List α) (period : Nat) (dimension : α)
    {indices : List Nat} {k i : Nat} (here : indices[k]? = some i) :
    (fractalAlphasFrom highs lows period dimension indices)[k]? = some
      (if i + 1 < period then 1
      else dimensionAlpha (((indices.take (k + 1)).filterMap
        (shownDimension highs lows period)).getLastD dimension)) := by
  induction indices generalizing dimension k with
  | nil => cases here
  | cons first rest ih =>
      by_cases early : first + 1 < period
      · have skipped : shownDimension highs lows period first = none := if_pos early
        rw [fractalAlphasFrom, if_pos early, List.take_succ_cons, List.filterMap_cons_none skipped]
        cases k with
        | zero =>
            cases here
            rw [if_pos early]
            rfl
        | succ k => exact ih dimension here
      · have step : ((first :: rest.take k).filterMap (shownDimension highs lows period)).getLastD
            dimension = ((rest.take k).filterMap (shownDimension highs lows period)).getLastD
              ((shownDimension highs lows period first).getD dimension) := by
          cases shown : shownDimension highs lows period first with
          | none => rw [List.filterMap_cons_none shown, Option.getD_none]
          | some d => rw [List.filterMap_cons_some shown, List.getLastD_cons, Option.getD_some]
        rw [fractalAlphasFrom, if_neg early, List.take_succ_cons, step, shownDimension,
          if_neg early]
        cases k with
        | zero =>
            cases here
            rw [if_neg early]
            rfl
        | succ k => exact ih _ here

/-! ## Ranges of numbers -/

section Ranges

variable {K : Type} [Field K] [LinearOrder K]

/-- The ranges of a window and of its halves, which are no wider. -/
structure Halved (num : K → α) (highs lows : List α) (half : Nat) (older newer whole : K) :
    Prop where
  isOlder : channelRange (highs.take half) (lows.take half) = num older
  isNewer : channelRange (highs.drop half) (lows.drop half) = num newer
  isWhole : channelRange highs lows = num whole
  older_le : older ≤ whole
  newer_le : newer ≤ whole

variable {num : K → α} (exact : Exact num)
  (ordinary : Ordinary num) {L : Type} [LinearOrder L] {place : α → L} (ordered : Ordered place)
  (incomparable : Incomparable α)
include exact ordinary ordered incomparable

/-- The infinities in front give way to the ends of the span. -/
theorem foldl_maxNum_num {xs : List K} {lo hi : K} (spans : Spans xs lo hi) :
    (xs.map num).foldl maxNum (-infinity) = num hi := by
  obtain ⟨number, bound⟩ :=
    joins_foldl ordered.joins_maxNum ordered.negInfinity (ordinary.isNaN_map xs)
  obtain ⟨-, isHighest⟩ := isHighest_num exact ordered incomparable spans ordinary
  have member : num hi ∈ xs.map num := List.mem_map_of_mem spans.high
  have above := ((bound _).mp le_rfl).2
  have below : ∀ x ∈ xs.map num, place x ≤ place (num hi) := by
    intro x inside
    have compared := isHighest.bound x inside
    rwa [ordered.le _ _ (ordinary.isNaN_map xs x inside) (ordinary.isNaN hi),
      decide_eq_true_eq] at compared
  have same : place ((xs.map num).foldl maxNum (-infinity)) = place (num hi) :=
    le_antisymm ((bound _).mpr ⟨ordered.negInfinity_le _ (ordinary.isNaN hi), below⟩)
      (above _ member)
  exact eq_num_of_isHighest exact ordered incomparable spans
    (ordered.isHighest number (ordinary.isNaN_map xs) ⟨_, member, same⟩ above)

theorem foldl_minNum_num {xs : List K} {lo hi : K} (spans : Spans xs lo hi) :
    (xs.map num).foldl minNum infinity = num lo := by
  obtain ⟨number, bound⟩ :=
    joins_foldl ordered.joins_minNum ordered.infinity (ordinary.isNaN_map xs)
  obtain ⟨-, isLowest⟩ := isLowest_num exact ordered incomparable spans ordinary
  have member : num lo ∈ xs.map num := List.mem_map_of_mem spans.low
  have below := ((bound _).mp le_rfl).2
  have above : ∀ x ∈ xs.map num, place (num lo) ≤ place x := by
    intro x inside
    have compared := isLowest.bound x inside
    rwa [ordered.le _ _ (ordinary.isNaN lo) (ordinary.isNaN_map xs x inside),
      decide_eq_true_eq] at compared
  have same : place ((xs.map num).foldl minNum infinity) = place (num lo) :=
    le_antisymm (below _ member)
      ((bound _).mpr ⟨ordered.le_infinity _ (ordinary.isNaN lo), above⟩)
  exact eq_num_of_isLowest exact ordered incomparable spans
    (ordered.isLowest number (ordinary.isNaN_map xs) ⟨_, member, same⟩ below)

theorem channelRange_num {highs lows : List K} {least most lo hi : K} (spans : Spans highs least hi)
    (spans' : Spans lows lo most) :
    channelRange (highs.map num) (lows.map num) = num (hi - lo) := by
  rw [channelRange, foldl_maxNum_num exact ordinary ordered incomparable spans,
    foldl_minNum_num exact ordinary ordered incomparable spans', exact.sub]

variable [IsStrictOrderedRing K]

/-- A window of an even number of bars, whose halves have no wider ranges than the whole. -/
theorem exists_halved {highs lows : List K} {half : Nat} (positive : 0 < half)
    (size : highs.length = 2 * half) (size' : lows.length = 2 * half) :
    ∃ older newer whole : K, Halved num (highs.map num) (lows.map num) half older newer whole := by
  have filled {xs : List K} (size : xs.length = 2 * half) :
      xs.take half ≠ [] ∧ xs.drop half ≠ [] ∧ xs ≠ [] := by
    refine ⟨?_, ?_, ?_⟩
    · rw [← List.length_pos_iff, List.length_take]
      omega
    · rw [← List.length_pos_iff, List.length_drop]
      omega
    · rw [← List.length_pos_iff]
      omega
  obtain ⟨someOlder, someNewer, some⟩ := filled size
  obtain ⟨someOlder', someNewer', some'⟩ := filled size'
  obtain ⟨_, hi, spans⟩ := exists_spans some
  obtain ⟨lo, _, spans'⟩ := exists_spans some'
  have part {part part' : List K} (some : part ≠ []) (some' : part' ≠ []) (inside : part ⊆ highs)
      (inside' : part' ⊆ lows) :
      ∃ range ≤ hi - lo, channelRange (part.map num) (part'.map num) = num range := by
    obtain ⟨_, high, narrow⟩ := exists_spans some
    obtain ⟨low, _, narrow'⟩ := exists_spans some'
    refine ⟨high - low, ?_, channelRange_num exact ordinary ordered incomparable narrow narrow'⟩
    exact sub_le_sub (spans.range high (inside narrow.high)).2
      (spans'.range low (inside' narrow'.low)).1
  obtain ⟨older, older_le, isOlder⟩ := part someOlder someOlder' (List.take_subset _ _)
    (List.take_subset _ _)
  obtain ⟨newer, newer_le, isNewer⟩ := part someNewer someNewer' (List.drop_subset _ _)
    (List.drop_subset _ _)
  rw [List.map_take, List.map_take] at isOlder
  rw [List.map_drop, List.map_drop] at isNewer
  exact ⟨older, newer, hi - lo, isOlder, isNewer,
    channelRange_num exact ordinary ordered incomparable spans spans', older_le, newer_le⟩

end Ranges

/-! ## Dimensions of windows -/

/-- The natural exponential function and logarithm are those of the real numbers. -/
structure Natural (num : ℝ → α) : Prop where
  exp : ∀ x, Scalar.exp (num x) = num (Real.exp x)
  log : ∀ x, 0 < x → Scalar.log (num x) = num (Real.log x)
  logTwo : (Scalar.logTwo : α) = num (Real.log 2)

theorem dimension_le_iff {steep flat : ℝ} (positive : 0 < steep) (positive' : 0 < flat) (k : Nat) :
    (Real.log steep - Real.log flat) / Real.log 2 ≤ k ↔ steep ≤ 2 ^ k * flat := by
  have power : (0 : ℝ) < 2 ^ k := by positivity
  rw [div_le_iff₀ (Real.log_pos one_lt_two), sub_le_iff_le_add, ← Real.log_pow,
    ← Real.log_mul power.ne' positive'.ne', Real.log_le_log_iff positive (by positivity)]

/-- The factor for the dimension 2 is above the least one. -/
theorem least_lt_exp : (1 / 100 : ℝ) < Real.exp (-(46 / 10)) := by
  have tenth : Real.exp (46 / 10) ^ 10 = Real.exp 1 ^ 46 := by
    rw [← Real.exp_nat_mul, ← Real.exp_nat_mul]
    norm_num
  have below : Real.exp 1 ^ 46 < (100 : ℝ) ^ 10 :=
    (pow_lt_pow_left₀ Real.exp_one_lt_d9 (Real.exp_pos 1).le (by norm_num)).trans (by norm_num)
  have bound : Real.exp (46 / 10) < 100 := by
    rw [← tenth] at below
    exact lt_of_pow_lt_pow_left₀ 10 (by norm_num) below
  rw [Real.exp_neg, one_div]
  exact inv_strictAnti₀ (Real.exp_pos _) bound

/-- A window that shows a dimension: its halves together climb, at most four times as steeply as the
whole; the dimension is at most 2, and at most 1 just if the ranges of the halves do not exceed that
of the whole together. -/
structure Shown (highs lows : List α) (half : Nat) (dimension : α) : Prop where
  climbs : let (older, newer, _) := channelSlopes highs lows half (2 * half)
    lt 0 (older + newer) = true
  steepness : let (older, newer, whole) := channelSlopes highs lows half (2 * half)
    le (older + newer) (4 * whole) = true
  le_two : le dimension 2 = true
  le_one_iff : le dimension 1 = true ↔
    le (channelRange (highs.take half) (lows.take half) +
      channelRange (highs.drop half) (lows.drop half)) (channelRange highs lows) = true

/-- The factor for a dimension of at most 2: the exponential that it is made from is never below that
for 2, which is above the least factor, so it is cut at 1 only, and is 1 just for a dimension of at
most 1. -/
structure Cut (dimension factor : α) : Prop where
  le_two : le dimension 2 = true
  rate_le : le (exp (-4.6)) (exp (-4.6 * (dimension - 1))) = true
  least_lt : lt minFractalAlpha (exp (-4.6) : α) = true
  cut : factor = if lt 1 (exp (-4.6 * (dimension - 1))) then 1 else exp (-4.6 * (dimension - 1))
  one_iff : factor = 1 ↔ le dimension 1 = true

section Dimensions

variable {num : ℝ → α} (exact : Exact num) (natural : Natural num)
include exact natural

omit natural in
/-- How steeply the halves and the whole climb. -/
theorem Halved.slopes {highs lows : List α} {half : Nat} (positive : 0 < half)
    {older newer whole : ℝ} (halved : Halved num highs lows half older newer whole) :
    channelSlopes highs lows half (2 * half) =
      (num (older / half), num (newer / half), num (whole / half / 2)) := by
  have count : (0 : ℝ) < half := Nat.cast_pos.mpr positive
  rw [channelSlopes, halved.isOlder, halved.isNewer, halved.isWhole, exact.ofCount, exact.ofCount,
    Nat.cast_mul, Nat.cast_two, exact.div _ _ count.ne', exact.div _ _ count.ne',
    exact.div _ _ (by positivity), mul_comm, div_mul_eq_div_div]

theorem Halved.shown {highs lows : List α} {half : Nat} (positive : 0 < half)
    {older newer whole : ℝ} (halved : Halved num highs lows half older newer whole) {dimension : α}
    (known : fractalDimension (channelSlopes highs lows half (2 * half)) = some dimension) :
    Shown highs lows half dimension ∧ ∃ d ≤ 2, dimension = num d := by
  have count : (0 : ℝ) < half := Nat.cast_pos.mpr positive
  have slopes := halved.slopes exact positive
  have steepness : older / half + newer / half ≤ 4 * (whole / half / 2) := by
    have older_le := div_le_div_of_nonneg_right halved.older_le count.le
    have newer_le := div_le_div_of_nonneg_right halved.newer_le count.le
    linarith
  have together : older / half + newer / half ≤ 2 * (whole / half / 2) ↔ older + newer ≤ whole := by
    rw [mul_div_cancel₀ _ two_ne_zero, ← add_div, div_le_div_iff_of_pos_right count]
  simp only [slopes, fractalDimension, exact.add, exact.zero, exact.lt, Bool.and_eq_true,
    decide_eq_true_eq] at known
  split at known
  case isFalse => cases known
  case isTrue range =>
    obtain ⟨climbs, rises⟩ := range
    rw [natural.log _ climbs, natural.log _ rises, natural.logTwo, exact.sub,
      exact.div _ _ (Real.log_pos one_lt_two).ne'] at known
    obtain rfl := Option.some_injective _ known
    have le_two := (dimension_le_iff climbs rises 2).mpr (by linarith)
    have le_one := dimension_le_iff climbs rises 1
    rw [pow_one, together, Nat.cast_one] at le_one
    refine ⟨⟨?_, ?_, ?_, ?_⟩, _, le_two, rfl⟩
    · simp only [slopes, exact.add, exact.zero, exact.lt, decide_eq_true_eq]
      exact climbs
    · simp only [slopes, exact.add, exact.natLit 4, exact.mul, exact.le, decide_eq_true_eq]
      exact steepness
    · rw [exact.natLit 2, exact.le]
      exact decide_eq_true le_two
    · rw [halved.isOlder, halved.isNewer, halved.isWhole, exact.add, exact.one, exact.le, exact.le,
        decide_eq_true_eq, decide_eq_true_eq]
      exact le_one

omit natural in
theorem rate : (-4.6 : α) = num (-(46 / 10)) := by
  have literal : (4.6 : α) = num (46 / 10) := by
    refine (exact.ofDecimal 46 true 1).trans ?_
    norm_num
  rw [literal, exact.neg]

/-- What the exponential of a dimension of at most 2 comes to. -/
theorem exp_rate {d : ℝ} (bound : d ≤ 2) :
    exp (-4.6 * (num d - 1)) = num (Real.exp (-(46 / 10) * (d - 1))) ∧
      Real.exp (-(46 / 10)) ≤ Real.exp (-(46 / 10) * (d - 1)) := by
  rw [rate exact, exact.one, exact.sub, exact.mul, natural.exp]
  refine ⟨rfl, Real.exp_le_exp.mpr ?_⟩
  linarith

/-- The clamp of a factor has nothing to do below. -/
theorem dimensionAlpha_num {d : ℝ} (bound : d ≤ 2) :
    dimensionAlpha (num d) = num (min (Real.exp (-(46 / 10) * (d - 1))) 1) := by
  obtain ⟨value, above⟩ := exp_rate exact natural bound
  have kept : (1 / 100 : ℝ) ≤ Real.exp (-(46 / 10) * (d - 1)) := (least_lt_exp.trans_le above).le
  rw [dimensionAlpha, value, if_pos (exact.finite _), minFractalAlpha, exact.least, exact.one,
    exact.clamp, max_eq_left kept]

theorem cut_dimensionAlpha {d : ℝ} (bound : d ≤ 2) : Cut (num d) (dimensionAlpha (num d)) := by
  obtain ⟨value, above⟩ := exp_rate exact natural bound
  have factor := dimensionAlpha_num exact natural bound
  constructor
  case le_two =>
    rw [exact.natLit 2, exact.le, decide_eq_true_eq]
    exact bound
  case rate_le =>
    rw [value, rate exact, natural.exp, exact.le, decide_eq_true_eq]
    exact above
  case least_lt =>
    rw [rate exact, natural.exp, minFractalAlpha, exact.least, exact.lt, decide_eq_true_eq]
    exact least_lt_exp
  case cut =>
    rw [factor, value, exact.one, exact.lt]
    by_cases high : 1 < Real.exp (-(46 / 10) * (d - 1))
    · rw [if_pos (decide_eq_true high), min_eq_right high.le]
    · rw [if_neg (by simpa using high), min_eq_left (not_lt.mp high)]
  case one_iff =>
    rw [factor, exact.one, exact.le, decide_eq_true_eq]
    constructor
    · intro whole
      have high := min_eq_right_iff.mp (exact.injective whole)
      rw [Real.one_le_exp_iff] at high
      linarith
    · intro flat
      rw [min_eq_right (Real.one_le_exp_iff.mpr _)]
      linarith

/-- Each factor is the one for the dimension shown last, which is 1 until a window is full. -/
theorem fractalAlphas_getElem? {highs lows : List α} (period : Nat) {i : Nat}
    (inside : i < min highs.length lows.length) :
    (fractalAlphas highs lows period)[i]? =
      some (dimensionAlpha (lastDimension highs lows period i)) := by
  have step := fractalAlphasFrom_getElem? highs lows period 1 (List.getElem?_range inside)
  rw [List.take_range, Nat.min_eq_left (Nat.succ_le_of_lt inside)] at step
  rw [fractalAlphas, step]
  congr 1
  by_cases early : i + 1 < period
  · rcases lastDimension_cases highs lows period i with first | ⟨j, before, shown⟩
    · rw [if_pos early, first, exact.one, dimensionAlpha_num exact natural one_le_two, sub_self,
        mul_zero, Real.exp_zero, min_self]
    · rw [shownDimension, if_pos (by omega)] at shown
      cases shown
  · rw [if_neg early]
    rfl

end Dimensions

/-! ## Dimensions of channels -/

omit [Scalar α] in
theorem halves_of_check [Scalar α] {period : Nat} {u : Unit}
    (accepted : (checkFractalPeriod period : Except (StudyError α) Unit) = .ok u) :
    ∃ half, 0 < half ∧ period = 2 * half := by
  have checked := require_ok accepted
  rw [Bool.and_eq_true, decide_eq_true_eq, beq_iff_eq] at checked
  exact ⟨period / 2, by omega, by omega⟩

section Channels

variable {num : ℝ → α} (exact : Exact num) (natural : Natural num) (ordinary : Ordinary num)
  {L : Type} [LinearOrder L] {place : α → L} (ordered : Ordered place)
  (incomparable : Incomparable α) {highs lows : List α}
  (finiteHighs : ∀ x ∈ highs, isFinite x = true) (finiteLows : ∀ x ∈ lows, isFinite x = true)
  {half : Nat} (positive : 0 < half)
include exact natural ordinary ordered incomparable finiteHighs finiteLows positive

theorem shown_of_window {i : Nat} {dimension : α} (inside : i < min highs.length lows.length)
    (known : shownDimension highs lows (2 * half) i = some dimension) :
    Shown (trailing highs i (2 * half)) (trailing lows i (2 * half)) half dimension ∧
      ∃ d ≤ 2, dimension = num d := by
  unfold shownDimension at known
  split at known
  case isTrue => cases known
  case isFalse full =>
    obtain ⟨xs, rfl⟩ := exact.exists_map finiteHighs
    obtain ⟨ys, rfl⟩ := exact.exists_map finiteLows
    rw [List.length_map, List.length_map, lt_min_iff] at inside
    have size {ks : List ℝ} (inside : i < ks.length) :
        (trailing ks i (2 * half)).length = 2 * half := by
      rw [length_trailing inside, span]
      omega
    rw [trailing_map, trailing_map, Nat.mul_div_cancel_left half Nat.two_pos] at known
    rw [trailing_map, trailing_map]
    obtain ⟨older, newer, whole, halved⟩ := exists_halved exact ordinary ordered incomparable
      positive (size inside.1) (size inside.2)
    exact halved.shown exact natural positive known

/-- The dimension never exceeds 2, for it started at 1. -/
theorem lastDimension_num {i : Nat} (inside : i < min highs.length lows.length) :
    ∃ d ≤ 2, lastDimension highs lows (2 * half) i = num d := by
  rcases lastDimension_cases highs lows (2 * half) i with first | ⟨j, before, shown⟩
  · exact ⟨1, one_le_two, first.trans exact.one⟩
  · exact (shown_of_window exact natural ordinary ordered incomparable finiteHighs finiteLows
      positive (before.trans_lt inside) shown).2

end Channels

/-- The dimension behind fractal factors, in real arithmetic. A window that shows a dimension shows
one of at most 2, and one of at most 1 just if the ranges of its halves together do not exceed its
own (`Shown`). The dimension of a factor is the one shown last, or the 1 that stands before the first
one; so it is at most 2 everywhere, and the clamp of the factor never acts below (`Cut`). -/
theorem fractal_dimension_bounded {num : ℝ → α} (exact : Exact num) (natural : Natural num)
    (ordinary : Ordinary num) {L : Type} [LinearOrder L] {place : α → L} (ordered : Ordered place)
    (incomparable : Incomparable α) {highs lows : List α}
    (finiteHighs : ∀ x ∈ highs, isFinite x = true) (finiteLows : ∀ x ∈ lows, isFinite x = true)
    {period : Nat} (accepted : (checkFractalPeriod period : Except (StudyError α) Unit) = .ok ()) :
    (∀ (i : Nat) (dimension : α), i < min highs.length lows.length →
      shownDimension highs lows period i = some dimension →
        Shown (trailing highs i period) (trailing lows i period) (period / 2) dimension) ∧
    ∀ i, i < min highs.length lows.length →
      let dimension := lastDimension highs lows period i
      ∃ factor, (fractalAlphas highs lows period)[i]? = some factor ∧ Cut dimension factor ∧
        ((∀ j ≤ i, shownDimension highs lows period j = none) → dimension = 1) ∧
        ∀ (j : Nat) (shown : α), j ≤ i → shownDimension highs lows period j = some shown →
          (∀ k, j < k → k ≤ i → shownDimension highs lows period k = none) →
            let window := trailing highs j period
            let window' := trailing lows j period
            dimension = shown ∧
            (factor = 1 ↔
              le (channelRange (window.take (period / 2)) (window'.take (period / 2)) +
                channelRange (window.drop (period / 2)) (window'.drop (period / 2)))
                (channelRange window window') = true) := by
  obtain ⟨half, positive, rfl⟩ := halves_of_check accepted
  rw [Nat.mul_div_cancel_left half Nat.two_pos]
  have window {i : Nat} {dimension : α} (inside : i < min highs.length lows.length)
      (known : shownDimension highs lows (2 * half) i = some dimension) :=
    shown_of_window exact natural ordinary ordered incomparable finiteHighs finiteLows positive
      inside known
  refine ⟨fun i dimension inside known => (window inside known).1, ?_⟩
  intro i inside dimension
  obtain ⟨d, bound, isLast⟩ := lastDimension_num exact natural ordinary ordered incomparable
    finiteHighs finiteLows positive inside
  have cut := cut_dimensionAlpha exact natural bound
  rw [← isLast] at cut
  refine ⟨_, fractalAlphas_getElem? exact natural _ inside, cut, ?_, ?_⟩
  · intro none
    rcases lastDimension_cases highs lows (2 * half) i with first | ⟨j, before, known⟩
    · exact first
    · rw [none j before] at known
      cases known
  · intro j shown before known none _ _
    have same : dimension = shown := lastDimension_eq before known none
    refine ⟨same, cut.one_iff.trans ?_⟩
    rw [← (window (before.trans_lt inside) known).1.le_one_iff, ← same]

theorem natural_extendedReal : Natural ExtendedReal.of where
  exp _ := rfl
  log _ _ := rfl
  logTwo := congrArg (fun two => ExtendedReal.of (Real.log two)) one_add_one_eq_two

/-- A channel that rises steadily from the first bar to the second, keeps to the rest of its range on
the third and is flat from there: two windows show the dimension 1, the last one shows none and keeps
it. -/
theorem fractal_dimension_bounded_extendedReal :
    let highs : List ExtendedReal := [1, 2, 2, 2].map .of
    let lows : List ExtendedReal := [0, 1, 2, 2].map .of
    Exact ExtendedReal.of ∧ Natural ExtendedReal.of ∧ Ordinary ExtendedReal.of ∧
    Ordered ExtendedReal.value ∧ Incomparable ExtendedReal ∧
    (∀ x ∈ highs, isFinite x = true) ∧ (∀ x ∈ lows, isFinite x = true) ∧
    (checkFractalPeriod 2 : Except (StudyError ExtendedReal) Unit) = .ok () ∧
    shownDimension highs lows 2 2 = some (.of 1) ∧
    Shown ([2, 2].map ExtendedReal.of) ([1, 2].map .of) 1 (.of 1) ∧
    shownDimension highs lows 2 3 = none ∧ lastDimension highs lows 2 3 = .of 1 ∧
    ∃ factor, (fractalAlphas highs lows 2)[3]? = some factor ∧ Cut (.of 1) factor ∧
      factor = 1 := by
  intro highs lows
  have slopes (a b c d : ℝ) (up : a ≤ b) (up' : c ≤ d) :
      channelSlopes ([a, b].map ExtendedReal.of) ([c, d].map .of) 1 2 =
        (.of (a - c), .of (b - d), .of ((b - c) / 2)) := by
    have point (x : ℝ) : Spans [x] x x := ⟨by simp, by simp, by simp⟩
    have pair {x y : ℝ} (up : x ≤ y) : Spans [x, y] x y := ⟨by simp, by simp, by simp [up]⟩
    have range {xs ys : List ℝ} {least most lo hi : ℝ} (spans : Spans xs least hi)
        (spans' : Spans ys lo most) :
        channelRange (xs.map ExtendedReal.of) (ys.map .of) = .of (hi - lo) :=
      channelRange_num ExtendedReal.exact ExtendedReal.ordinary ExtendedReal.ordered
        ExtendedReal.incomparable spans spans'
    have halved : Halved ExtendedReal.of ([a, b].map .of) ([c, d].map .of) 1 (a - c) (b - d)
        (b - c) :=
      ⟨range (point a) (point c), range (point b) (point d), range (pair up) (pair up'),
        by linarith, by linarith⟩
    have known := halved.slopes ExtendedReal.exact Nat.one_pos
    rwa [Nat.cast_one, div_one, div_one, div_one] at known
  have finiteHighs : ∀ x ∈ highs, isFinite x = true :=
    List.forall_mem_map.mpr fun x _ => ExtendedReal.exact.finite x
  have finiteLows : ∀ x ∈ lows, isFinite x = true :=
    List.forall_mem_map.mpr fun x _ => ExtendedReal.exact.finite x
  have shown : shownDimension highs lows 2 2 = some (.of 1) := by
    show fractalDimension (channelSlopes ([2, 2].map ExtendedReal.of) ([1, 2].map .of) 1 2) = _
    rw [slopes 2 2 1 2 le_rfl one_le_two]
    simp only [fractalDimension, ExtendedReal.exact.add, ExtendedReal.exact.zero,
      ExtendedReal.exact.lt]
    have half : Real.log ((2 - 1) / 2) = -Real.log 2 := by
      rw [← Real.log_inv]
      norm_num
    rw [if_pos (by norm_num), natural_extendedReal.log _ (by norm_num),
      natural_extendedReal.log _ (by norm_num), natural_extendedReal.logTwo,
      ExtendedReal.exact.sub, ExtendedReal.exact.div _ _ (Real.log_pos one_lt_two).ne', half,
      sub_neg_eq_add, sub_self, add_zero, add_div, div_self (Real.log_pos one_lt_two).ne']
    norm_num
  have flat : shownDimension highs lows 2 3 = none := by
    show fractalDimension (channelSlopes ([2, 2].map ExtendedReal.of) ([2, 2].map .of) 1 2) = _
    rw [slopes 2 2 2 2 le_rfl le_rfl]
    simp only [fractalDimension, ExtendedReal.exact.add, ExtendedReal.exact.zero,
      ExtendedReal.exact.lt]
    rw [if_neg (by norm_num)]
  have accepted : (checkFractalPeriod 2 : Except (StudyError ExtendedReal) Unit) = .ok () := rfl
  obtain ⟨windows, factors⟩ := fractal_dimension_bounded ExtendedReal.exact natural_extendedReal
    ExtendedReal.ordinary ExtendedReal.ordered ExtendedReal.incomparable finiteHighs finiteLows
    accepted
  obtain ⟨factor, isFactor, cut, -, carried⟩ := factors 3 (by decide)
  obtain ⟨kept, -⟩ := carried 2 (.of 1) (by decide) shown fun k after upTo => by
    obtain rfl : k = 3 := by omega
    exact flat
  rw [kept] at cut
  have whole : factor = 1 := by
    rw [cut.one_iff, ExtendedReal.exact.one, ExtendedReal.exact.le, decide_eq_true_eq]
  exact ⟨ExtendedReal.exact, natural_extendedReal, ExtendedReal.ordinary, ExtendedReal.ordered,
    ExtendedReal.incomparable, finiteHighs, finiteLows, accepted, shown, windows 2 _ (by decide) shown,
    flat, kept, factor, isFactor, cut, whole⟩

end Chartist.Adaptive
