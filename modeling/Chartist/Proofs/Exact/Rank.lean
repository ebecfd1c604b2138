import Chartist.Proofs.Exact.Rsi
import Chartist.Proofs.Extended
import Chartist.Proofs.Order.Gap
import Chartist.Proofs.Reduction

/-!
# Ranks within a window

A window of numbers lies between its least and its greatest one, which are among its values
(`Spans`); the lanes and the deque both answer these two (`extent_num`, `extremes_num`). A value of
the window itself lies between them, so a rank is the plain quotient and its clamp does nothing
(`rank_num`). An affine map moves both ends of the span like the value between them. Main statement:
`rank_laws`.
-/

namespace Chartist.Window

open Rsi Scalar

/-! ## Spans of numbers -/

section Numbers

variable {K : Type} [LinearOrder K]

/-- The least and the greatest of the numbers. -/
structure Spans (xs : List K) (lo hi : K) : Prop where
  low : lo ∈ xs
  high : hi ∈ xs
  range : ∀ x ∈ xs, lo ≤ x ∧ x ≤ hi

theorem exists_spans {xs : List K} (some : xs ≠ []) : ∃ lo hi, Spans xs lo hi := by
  have nonempty : xs.toFinset.Nonempty := List.toFinset_nonempty_iff xs |>.mpr some
  obtain ⟨lo, low, least⟩ := xs.toFinset.exists_min_image id nonempty
  obtain ⟨hi, high, greatest⟩ := xs.toFinset.exists_max_image id nonempty
  simp only [List.mem_toFinset] at low least high greatest
  exact ⟨lo, hi, low, high, fun x member => ⟨least x member, greatest x member⟩⟩

variable [Field K] [IsStrictOrderedRing K] {xs : List K} {lo hi : K}

theorem Spans.affine (spans : Spans xs lo hi) {a : K} (positive : 0 < a) (b : K) :
    Spans (xs.map fun x => a * x + b) (a * lo + b) (a * hi + b) where
  low := List.mem_map_of_mem spans.low
  high := List.mem_map_of_mem spans.high
  range := by
    rw [List.forall_mem_map]
    intro x member
    obtain ⟨above, below⟩ := spans.range x member
    constructor
    · exact add_le_add_left (mul_le_mul_of_nonneg_left above positive.le) b
    · exact add_le_add_left (mul_le_mul_of_nonneg_left below positive.le) b

/-- A reflection exchanges both ends. -/
theorem Spans.reflect (spans : Spans xs lo hi) (c : K) :
    Spans (xs.map (c - ·)) (c - hi) (c - lo) where
  low := List.mem_map_of_mem spans.high
  high := List.mem_map_of_mem spans.low
  range := by
    rw [List.forall_mem_map]
    intro x member
    obtain ⟨above, below⟩ := spans.range x member
    exact ⟨sub_le_sub_left below c, sub_le_sub_left above c⟩

/-- The part of a span that is below a value of it. -/
theorem Spans.part (spans : Spans xs lo hi) {x : K} (member : x ∈ xs) (wide : lo < hi) :
    0 ≤ (x - lo) / (hi - lo) ∧ (x - lo) / (hi - lo) ≤ 1 := by
  obtain ⟨above, below⟩ := spans.range x member
  refine ⟨div_nonneg (sub_nonneg.mpr above) (sub_pos.mpr wide).le, ?_⟩
  rw [div_le_one (sub_pos.mpr wide)]
  exact sub_le_sub_right below lo

end Numbers

/-! ## Extremes of scalars -/

section Extremes

variable {α : Type} [Scalar α] {K : Type} [Field K] [LinearOrder K] {num : K → α}
  (exact : Exact num) {L : Type} [LinearOrder L] {place : α → L} (ordered : Ordered place)
  (incomparable : Incomparable α) {xs : List K} {lo hi : K} (spans : Spans xs lo hi)
include exact ordered incomparable spans

/-- What is numerically highest of numbers is the greatest of them. -/
theorem eq_num_of_isHighest {x : α} (isHighest : IsHighest x (xs.map num)) : x = num hi := by
  obtain ⟨number, ⟨y, member, same⟩, -⟩ := places_of_isHighest ordered incomparable isHighest
  have above := isHighest.bound _ (List.mem_map_of_mem spans.high)
  obtain ⟨k, inside, rfl⟩ := List.mem_map.mp member
  obtain ⟨numberY, -⟩ := numbers_of_compares incomparable.le (isHighest.bound _ member)
  -- it stands in the place of one of the numbers, so it is between two of them and a number itself
  have below : le x (num k) = true := by
    rw [ordered.le _ _ number numberY, decide_eq_true_eq, same]
  obtain ⟨h, rfl⟩ := (exact.isFinite x).mp (exact.between _ _ _ above below)
  rw [exact.le, decide_eq_true_eq] at above below
  exact congrArg num (le_antisymm (below.trans (spans.range k inside).2) above)

theorem eq_num_of_isLowest {x : α} (isLowest : IsLowest x (xs.map num)) : x = num lo := by
  obtain ⟨number, ⟨y, member, same⟩, -⟩ := places_of_isLowest ordered incomparable isLowest
  have below := isLowest.bound _ (List.mem_map_of_mem spans.low)
  obtain ⟨k, inside, rfl⟩ := List.mem_map.mp member
  obtain ⟨-, numberY⟩ := numbers_of_compares incomparable.le (isLowest.bound _ member)
  have above : le (num k) x = true := by
    rw [ordered.le _ _ numberY number, decide_eq_true_eq, same]
  obtain ⟨l, rfl⟩ := (exact.isFinite x).mp (exact.between _ _ _ above below)
  rw [exact.le, decide_eq_true_eq] at above below
  exact congrArg num (le_antisymm below ((spans.range k inside).1.trans above))

variable (ordinary : Ordinary num)
include ordinary

theorem isHighest_num : highest (xs.map num) = num hi ∧ IsHighest (num hi) (xs.map num) := by
  have some : xs.map num ≠ [] := List.ne_nil_of_mem (List.mem_map_of_mem spans.high)
  obtain ⟨-, -, isHighest⟩ := highest_window ordered some (ordinary.isNaN_map xs)
  have known := eq_num_of_isHighest exact ordered incomparable spans isHighest
  exact ⟨known, known ▸ isHighest⟩

theorem isLowest_num : lowest (xs.map num) = num lo ∧ IsLowest (num lo) (xs.map num) := by
  have some : xs.map num ≠ [] := List.ne_nil_of_mem (List.mem_map_of_mem spans.low)
  obtain ⟨-, -, isLowest⟩ := lowest_window ordered some (ordinary.isNaN_map xs)
  have known := eq_num_of_isLowest exact ordered incomparable spans isLowest
  exact ⟨known, known ▸ isLowest⟩

theorem extent_num : extent (xs.map num) = some (num lo, num hi) := by
  have some : xs.map num ≠ [] := List.ne_nil_of_mem (List.mem_map_of_mem spans.low)
  rw [extent_eq_some some, (isLowest_num exact ordered incomparable spans ordinary).1,
    (isHighest_num exact ordered incomparable spans ordinary).1]

variable [IsStrictOrderedRing K]

/-- The clamp has nothing to do. -/
theorem rank_num {x : K} (member : x ∈ xs) (degenerate : α) :
    rank (xs.map num) (num x) degenerate =
      if lo < hi then num ((x - lo) / (hi - lo)) else degenerate := by
  simp only [rank, extent_num exact ordered incomparable spans ordinary, exact.lt,
    decide_eq_true_eq]
  by_cases wide : lo < hi
  · obtain ⟨above, below⟩ := spans.part member wide
    rw [if_pos wide, if_pos wide, exact.sub, exact.sub, exact.div _ _ (sub_pos.mpr wide).ne',
      exact.zero, exact.one, exact.clamp, max_eq_left above, min_eq_left below]
  · rw [if_neg wide, if_neg wide]

theorem percentRank_num {x : K} (member : x ∈ xs) (degenerate : α) :
    percentRank (xs.map num) (num x) degenerate =
      if lo < hi then num (100 * ((x - lo) / (hi - lo))) else degenerate := by
  simp only [percentRank, extent_num exact ordered incomparable spans ordinary, exact.lt,
    decide_eq_true_eq]
  by_cases wide : lo < hi
  · obtain ⟨above, below⟩ := spans.part member wide
    have least : 0 ≤ 100 * ((x - lo) / (hi - lo)) := mul_nonneg (by norm_num) above
    have most : 100 * ((x - lo) / (hi - lo)) ≤ 100 := mul_le_of_le_one_right (by norm_num) below
    rw [if_pos wide, if_pos wide, exact.sub, exact.sub, hundred exact, exact.mul,
      exact.div _ _ (sub_pos.mpr wide).ne', mul_div_assoc, exact.zero, exact.clamp,
      max_eq_left least, min_eq_left most]
  · rw [if_neg wide, if_neg wide]

end Extremes

/-! ## Ranks -/

variable {α : Type} [Scalar α]

/-- The rank of a value of a window with a lowest and a highest value. In a window that is not flat
it is the part of the span below the value, without any clamp, and is whole just for the highest
value and zero just for the lowest one; a rank in percent is a hundred times the rank. -/
structure Ranked (window : List α) (x degenerate : α) : Prop where
  isLowest : IsLowest (lowest window) window
  isHighest : IsHighest (highest window) window
  flat : lt (lowest window) (highest window) = false → rank window x degenerate = degenerate
  share : lt (lowest window) (highest window) = true →
    rank window x degenerate = (x - lowest window) / (highest window - lowest window)
  inside : lt (lowest window) (highest window) = true →
    within 0 ((x - lowest window) / (highest window - lowest window)) 1 = true
  one_iff : lt (lowest window) (highest window) = true →
    (rank window x degenerate = 1 ↔ IsHighest x window)
  zero_iff : lt (lowest window) (highest window) = true →
    (rank window x degenerate = 0 ↔ IsLowest x window)
  percent : percentRank window x (100 * degenerate) = 100 * rank window x degenerate

section Ranks

variable {K : Type} [Field K] [LinearOrder K] [IsStrictOrderedRing K] {num : K → α}
  (exact : Exact num) (ordinary : Ordinary num) {L : Type} [LinearOrder L] {place : α → L}
  (ordered : Ordered place) (incomparable : Incomparable α)
include exact ordinary ordered incomparable

theorem ranked_num {xs : List K} {x : K} (member : x ∈ xs) (degenerate : α) :
    Ranked (xs.map num) (num x) degenerate := by
  obtain ⟨lo, hi, spans⟩ := exists_spans (List.ne_nil_of_mem member)
  obtain ⟨low, isLowest⟩ := isLowest_num exact ordered incomparable spans ordinary
  obtain ⟨high, isHighest⟩ := isHighest_num exact ordered incomparable spans ordinary
  have value := rank_num exact ordered incomparable spans ordinary member degenerate
  have wide : lt (lowest (xs.map num)) (highest (xs.map num)) = true ↔ lo < hi := by
    rw [low, high, exact.lt, decide_eq_true_eq]
  have quotient (less : lo < hi) :
      (num x - lowest (xs.map num)) / (highest (xs.map num) - lowest (xs.map num)) =
        num ((x - lo) / (hi - lo)) := by
    rw [low, high, exact.sub, exact.sub, exact.div _ _ (sub_pos.mpr less).ne']
  constructor
  case isLowest => exact low ▸ isLowest
  case isHighest => exact high ▸ isHighest
  case flat =>
    intro level
    rw [← Bool.not_eq_true, wide] at level
    rw [value, if_neg level]
  case share =>
    rw [wide]
    intro less
    rw [value, if_pos less, quotient less]
  case inside =>
    rw [wide]
    intro less
    rw [quotient less, exact.zero, exact.one, exact.within]
    exact spans.part member less
  case one_iff =>
    rw [wide]
    intro less
    rw [value, if_pos less, exact.one]
    constructor
    · intro whole
      have top := exact.injective whole
      rw [div_eq_one_iff_eq (sub_pos.mpr less).ne', sub_left_inj] at top
      exact top ▸ isHighest
    · intro top
      rw [exact.injective (eq_num_of_isHighest exact ordered incomparable spans top),
        div_self (sub_pos.mpr less).ne']
  case zero_iff =>
    rw [wide]
    intro less
    rw [value, if_pos less, exact.zero]
    constructor
    · intro none
      have bottom := exact.injective none
      rw [div_eq_zero_iff, or_iff_left (sub_pos.mpr less).ne', sub_eq_zero] at bottom
      exact bottom ▸ isLowest
    · intro bottom
      rw [exact.injective (eq_num_of_isLowest exact ordered incomparable spans bottom), sub_self,
        zero_div]
  case percent =>
    rw [percentRank_num exact ordered incomparable spans ordinary member, value]
    by_cases less : lo < hi
    · rw [if_pos less, if_pos less, hundred exact, exact.mul]
    · rw [if_neg less, if_neg less]

theorem rank_affine {xs : List K} {x : K} (member : x ∈ xs) {a : K} (positive : 0 < a) (b : K)
    (degenerate : α) :
    rank ((xs.map fun x => a * x + b).map num) (num (a * x + b)) degenerate =
      rank (xs.map num) (num x) degenerate := by
  obtain ⟨lo, hi, spans⟩ := exists_spans (List.ne_nil_of_mem member)
  have moved : (a * x + b - (a * lo + b)) / (a * hi + b - (a * lo + b)) = (x - lo) / (hi - lo) := by
    rw [add_sub_add_right_eq_sub, add_sub_add_right_eq_sub, ← mul_sub, ← mul_sub,
      mul_div_mul_left _ _ positive.ne']
  rw [rank_num exact ordered incomparable (spans.affine positive b) ordinary
      (List.mem_map_of_mem member),
    rank_num exact ordered incomparable spans ordinary member, moved]
  simp only [add_lt_add_iff_right, mul_lt_mul_iff_right₀ positive]

theorem rank_reflect {xs : List K} {x : K} (member : x ∈ xs) (c : K) (degenerate : α)
    (wide : lt (lowest (xs.map num)) (highest (xs.map num)) = true) :
    rank ((xs.map (c - ·)).map num) (num (c - x)) degenerate =
      1 - rank (xs.map num) (num x) degenerate := by
  obtain ⟨lo, hi, spans⟩ := exists_spans (List.ne_nil_of_mem member)
  rw [(isLowest_num exact ordered incomparable spans ordinary).1,
    (isHighest_num exact ordered incomparable spans ordinary).1, exact.lt,
    decide_eq_true_eq] at wide
  have turned : (c - x - (c - hi)) / (c - lo - (c - hi)) = 1 - (x - lo) / (hi - lo) := by
    rw [sub_sub_sub_cancel_left, sub_sub_sub_cancel_left, eq_sub_iff_add_eq, ← add_div,
      sub_add_sub_cancel, div_self (sub_pos.mpr wide).ne']
  rw [rank_num exact ordered incomparable (spans.reflect c) ordinary (List.mem_map_of_mem member),
    rank_num exact ordered incomparable spans ordinary member, if_pos wide,
    if_pos (sub_lt_sub_left wide c), turned, exact.one, exact.sub]

end Ranks

/-! ## Ranks of a series -/

/-- The indicator ranks each value within its window where there is enough history, and answers the
middle of the scale elsewhere. -/
theorem rankOver_getElem? {data : List α} (length minHistory : Nat) (percent : Bool) {i : Nat}
    {x : α} (here : data[i]? = some x) :
    ((SeriesIndicator.rankOver length minHistory percent).values data)[i]? = some
      (if minHistory ≤ i + 1 then
        if percent then percentRank (trailing data i length) x 50
        else rank (trailing data i length) x 0.5
      else if percent then 50 else 0.5) := by
  obtain ⟨inside, -⟩ := List.getElem?_eq_some_iff.mp here
  -- one value is there in any case, so a history of zero asks for no less than one of 1
  have ready : (((⟨length, 1⟩ : Window).withMinHistory minHistory).isReady i = true) =
      (minHistory ≤ i + 1) := by
    simp [isReady, hasHistory, withMinHistory]
  rw [SeriesIndicator.rankOver, SeriesIndicator.values, SeriesIndicator.ranks, List.getElem?_map,
    List.getElem?_range inside, Option.map_some]
  simp only [guarded, ready, here, Option.getD_some]
  by_cases enough : minHistory ≤ i + 1
  · simp only [enough, if_true, Option.getD_some]
    cases percent <;> rfl
  · simp only [enough, if_false, Option.getD_none]

theorem length_rankOver (data : List α) (length minHistory : Nat) (percent : Bool) :
    ((SeriesIndicator.rankOver length minHistory percent).values data).length = data.length := by
  rw [SeriesIndicator.rankOver, SeriesIndicator.values, SeriesIndicator.ranks, List.length_map,
    List.length_range]

/-- A rank with 50 for flat windows is a place in the channel of the window. -/
theorem percentRank_eq_stochasticValue {window : List α} (some : window ≠ []) (x : α) :
    percentRank window x 50 = BarIndicator.stochasticValue x (highest window) (lowest window) := by
  rw [percentRank, extent_eq_some some]
  rfl

section Series

variable {K : Type} [Field K] [LinearOrder K] [IsStrictOrderedRing K] {num : K → α}
  (exact : Exact num) (ordinary : Ordinary num) {L : Type} [LinearOrder L] {place : α → L}
  (ordered : Ordered place) (incomparable : Incomparable α)
include exact ordinary ordered incomparable

omit [IsStrictOrderedRing K] in
/-- The deque answers the same numbers as the lanes. -/
theorem extremes_num {xs : List K} {length : Nat} (positive : 0 < length) {i : Nat}
    (inside : i < xs.length) :
    (rollingHighest (xs.map num) length)[i]? = some (highest (trailing (xs.map num) i length)) ∧
    (rollingLowest (xs.map num) length)[i]? = some (lowest (trailing (xs.map num) i length)) := by
  rw [← List.length_map num] at inside
  obtain ⟨-, -, agree⟩ := extremes_agree ordered (ordinary.isNaN_map xs) positive
  obtain ⟨high, low, runsHigh, runsLow, -, -, isHighest, -, isLowest, -⟩ := agree i inside
  have some := trailing_ne_nil inside positive
  rw [← trailing_eq_drop] at isHighest isLowest
  rw [runsHigh, runsLow]
  rw [trailing_map] at isHighest isLowest some ⊢
  obtain ⟨lo, hi, spans⟩ := exists_spans (List.map_eq_nil_iff.not.mp some)
  rw [(isHighest_num exact ordered incomparable spans ordinary).1,
    (isLowest_num exact ordered incomparable spans ordinary).1,
    eq_num_of_isHighest exact ordered incomparable spans isHighest,
    eq_num_of_isLowest exact ordered incomparable spans isLowest]
  exact ⟨rfl, rfl⟩

omit [IsStrictOrderedRing K] in
/-- On bars that are a single price, the channel is the window of that price. -/
theorem stochastic_points {bars : Bars α}
    (point : ∀ b ∈ bars, b.high = b.close ∧ b.low = b.close)
    (finite : ∀ b ∈ bars, isFinite b.close = true) {period : Nat} (positive : 0 < period) :
    (BarIndicator.stochastic period).values bars =
      (SeriesIndicator.rankOver period 1 true).values (bars.price .close) := by
  have highs : bars.price .high = bars.price .close :=
    List.map_congr_left fun b member => (point b member).1
  have lows : bars.price .low = bars.price .close :=
    List.map_congr_left fun b member => (point b member).2
  have finite' : ∀ x ∈ bars.price .close, isFinite x = true := List.forall_mem_map.mpr finite
  obtain ⟨xs, closes⟩ := exact.exists_map finite'
  have size : (bars.price .close).length = bars.length := List.length_map ..
  show BarIndicator.stochasticValues bars period = _
  rw [BarIndicator.stochasticValues, BarIndicator.upperLine, BarIndicator.lowerLine, highs, lows]
  apply List.ext_getElem?
  intro i
  by_cases inside : i < bars.length
  · have here : (bars.price .close)[i]? = some bars[i].close := by
      rw [Bars.price, List.getElem?_map, List.getElem?_eq_getElem inside]
      rfl
    have some : trailing (bars.price .close) i period ≠ [] :=
      trailing_ne_nil (size ▸ inside) positive
    have reached : i < xs.length := by
      rw [← List.length_map num, ← closes, size]
      exact inside
    obtain ⟨highest, lowest⟩ := extremes_num exact ordinary ordered incomparable positive reached
    rw [rankOver_getElem? period 1 true here, if_pos (by omega), if_pos rfl,
      percentRank_eq_stochasticValue some, closes, List.getElem?_zipWith, List.zip,
      List.getElem?_zipWith, highest, lowest, List.getElem?_eq_getElem inside]
  · rw [List.getElem?_eq_none, List.getElem?_eq_none]
    · rw [length_rankOver, size]
      exact Nat.le_of_not_lt inside
    · rw [List.length_zipWith]
      exact (Nat.min_le_left ..).trans (Nat.le_of_not_lt inside)

/-- The ranks of the values of a finite series, each within a window that is not empty: all of them
keep their laws (`Ranked`), whatever stands for the rank in a flat window. A change of scale and
level leaves them as they are, and a reflection subtracts those in windows that are not flat from 1.
The indicator answers them where there is enough history, and the middle of the scale elsewhere; and
on bars whose prices are one, the place in the channel of highest highs and lowest lows is the rank
in percent. -/
theorem rank_laws {data : List α} (finite : ∀ x ∈ data, isFinite x = true) {length : Nat}
    (positive : 0 < length) :
    (∀ (stop : Nat) (x : α), data[stop]? = some x → ∀ degenerate : α,
      Ranked (trailing data stop length) x degenerate ∧
      (∀ a b : α, isFinite a = true → isFinite b = true → lt 0 a = true →
        rank (trailing (data.map fun y => a * y + b) stop length) (a * x + b) degenerate =
          rank (trailing data stop length) x degenerate) ∧
      ∀ c : α, isFinite c = true →
        lt (lowest (trailing data stop length)) (highest (trailing data stop length)) = true →
        rank (trailing (data.map fun y => c - y) stop length) (c - x) degenerate =
          1 - rank (trailing data stop length) x degenerate) ∧
    (∀ (minHistory : Nat) (percent : Bool),
      let values := (SeriesIndicator.rankOver length minHistory percent).values data
      values.length = data.length ∧ ∀ (i : Nat) (x : α), data[i]? = some x →
        values[i]? = some
          (if minHistory ≤ i + 1 then
            if percent then percentRank (trailing data i length) x 50
            else rank (trailing data i length) x 0.5
          else if percent then 50 else 0.5)) ∧
    ∀ bars : Bars α, bars.price .close = data →
      (∀ b ∈ bars, b.high = b.close ∧ b.low = b.close) →
      (BarIndicator.stochastic length).values bars =
        (SeriesIndicator.rankOver length 1 true).values data := by
  obtain ⟨xs, rfl⟩ := exact.exists_map finite
  refine ⟨?_, ?_, ?_⟩
  · intro stop x here degenerate
    rw [List.getElem?_map, Option.map_eq_some_iff] at here
    obtain ⟨k, here, rfl⟩ := here
    have member := mem_trailing positive here
    rw [trailing_map]
    refine ⟨ranked_num exact ordinary ordered incomparable member degenerate, ?_, ?_⟩
    · intro a b finiteA finiteB above
      obtain ⟨p, rfl⟩ := (exact.isFinite a).mp finiteA
      obtain ⟨q, rfl⟩ := (exact.isFinite b).mp finiteB
      rw [exact.zero, exact.lt, decide_eq_true_eq] at above
      rw [map_num (exact.affine p q), exact.affine, trailing_map, trailing_map,
        rank_affine exact ordinary ordered incomparable member above]
    · intro c finiteC wide
      obtain ⟨q, rfl⟩ := (exact.isFinite c).mp finiteC
      rw [map_num (exact.sub q), exact.sub, trailing_map, trailing_map,
        rank_reflect exact ordinary ordered incomparable member q degenerate wide]
  · intro minHistory percent values
    refine ⟨length_rankOver _ length minHistory percent, ?_⟩
    intro i x here
    exact rankOver_getElem? length minHistory percent here
  · intro bars closes point
    have finite' : ∀ b ∈ bars, isFinite b.close = true := by
      intro b member
      exact finite _ (closes ▸ List.mem_map_of_mem member)
    rw [stochastic_points exact ordinary ordered incomparable point finite' positive, closes]

end Series

/-- Windows of three values: the first one and the last one are flat, and between them a value is
the highest, half way up and the lowest. -/
theorem rank_laws_extended :
    let data : List Extended := [.number 3, .number 7, .number 5, .number 5, .number 5]
    let window : List Extended := [.number 3, .number 7, .number 5]
    let bars : Bars Extended := data.map fun x => ⟨0, x, x, x, x, .number 1⟩
    Exact Extended.number ∧ Ordinary Extended.number ∧ Ordered Extended.place ∧
    Incomparable Extended ∧ (∀ x ∈ data, isFinite x = true) ∧ 0 < 3 ∧
    Ranked window (.number 5) Extended.missing ∧
    rank window (.number 5) Extended.missing = .number (1 / 2) ∧
    rank (trailing (data.map fun y => .number 2 * y + .number 1) 2 3)
      (.number 2 * .number 5 + .number 1) Extended.missing = .number (1 / 2) ∧
    rank (trailing (data.map fun y => .number 9 - y) 3 3) (.number 9 - .number 5)
      Extended.missing = 1 - 0 ∧
    ((SeriesIndicator.rankOver 3 4 false).values data)[2]? = some (0.5 : Extended) ∧
    (BarIndicator.stochastic 3).values bars = (SeriesIndicator.rankOver 3 1 true).values data ∧
    (BarIndicator.stochastic 3).values bars =
      [.number 50, .number 100, .number 50, .number 0, .number 50] := by
  intro data window bars
  have finite : ∀ x ∈ data, isFinite x = true := by decide
  have bottom : rank (trailing data 3 3) (.number 5) Extended.missing = 0 := by decide +kernel
  have middle : rank window (.number 5) Extended.missing = .number (1 / 2) := by decide +kernel
  obtain ⟨each, answers, points⟩ := rank_laws Extended.exact Extended.ordinary Extended.ordered
    Extended.incomparable finite (Nat.succ_pos 2)
  obtain ⟨ranked, moved, -⟩ := each 2 (.number 5) rfl .missing
  obtain ⟨-, -, reflected⟩ := each 3 (.number 5) rfl .missing
  have early := (answers 4 false).2 2 (.number 5) rfl
  rw [if_neg (by decide), if_neg (by decide)] at early
  refine ⟨Extended.exact, Extended.ordinary, Extended.ordered, Extended.incomparable, finite,
    Nat.succ_pos 2, ranked, middle, ?_, ?_, early, points bars rfl ?_, by decide +kernel⟩
  · exact (moved (.number 2) (.number 1) rfl rfl (by decide +kernel)).trans middle
  · exact (reflected (.number 9) rfl (by decide +kernel)).trans (congrArg (1 - ·) bottom)
  · intro b member
    obtain ⟨x, -, rfl⟩ := List.mem_map.mp member
    exact ⟨rfl, rfl⟩

end Chartist.Window
