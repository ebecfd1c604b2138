import Chartist.Proofs.Exact.Filter
import Chartist.Proofs.Exact.Range
import Chartist.Proofs.Exact.Strength

/-!
# Laws of the relative strength index

The index steps both averages through the changes and turns the quotient of the two into a number
between 0 and 100, with branches of its own where there is no loss or no movement. With exact
arithmetic the steps are those of exponential smoothing, and all branches give the share of the
gains (`value_num`). So the values are the indexes of numbers one by one (`values_num`), and have
their laws (`strength_laws`).
-/

namespace Chartist.Rsi

open Adaptive Chartist.Filter Window Scalar

variable {α : Type} [Scalar α]

/-- The moves to one side, smoothed by `1 / period` from the mean of the first `period` of them. -/
def averages (period : Nat) (moves : List α) : List α :=
  smooth (smmaAlpha period) (mean (moves.take period) :: moves.drop period)

/-- An index between 0 and 100 for each value: 50 up to `period`, and from there on 100 times the
part of the average gain in the average movement, if anything that is remembered moved. -/
structure Indexes (period : Nat) (data values : List α) : Prop where
  length : values.length = data.length
  range : ∀ v ∈ values, within 0 v 100 = true
  start : ∀ i, i < period → i < data.length → values[i]? = some 50
  share : ∀ i, period ≤ i → i < data.length →
    ∃ gains losses, (averages period ((changes data).map gain))[i - period]? = some gains ∧
      (averages period ((changes data).map loss))[i - period]? = some losses ∧
      values[i]? =
        some (if lt 0 (gains + losses) then 100 * gains / (gains + losses) else 50) ∧
      (lt 0 (gains + losses) = true ↔
        ∃ c ∈ remembered period i (changes data), eq c 0 = false)

section Exact

variable {K : Type} [Field K] [LinearOrder K] {num : K → α} (exact : Exact num)

omit [Scalar α] [Field K] [LinearOrder K] in
/-- A function on scalars that is one on numbers. -/
theorem map_num {f : α → α} {g : K → K} (same : ∀ x, f (num x) = num (g x)) (xs : List K) :
    (xs.map num).map f = (xs.map g).map num := by
  rw [List.map_map, List.map_map]
  exact List.map_congr_left fun x _ => same x

section Numbers

include exact

theorem hundred : (100 : α) = num 100 := exact.natLit 100

theorem fifty : (50 : α) = num 50 := exact.natLit 50

/-! ## Changes -/

theorem changes_num (xs : List K) : changes (xs.map num) = (steps xs).map num := by
  simp only [changes, steps, ← List.map_drop, List.zipWith_map, List.map_zipWith, exact.sub]

theorem gain_num (c : K) : gain (num c) = num (rise c) := by
  rw [gain, exact.zero, exact.lt, rise]
  by_cases up : 0 < c
  · rw [if_pos (decide_eq_true up), max_eq_left up.le]
  · rw [if_neg (by simpa using up), max_eq_right (not_lt.mp up)]

variable [IsStrictOrderedRing K]

theorem loss_num (c : K) : loss (num c) = num (fall c) := by
  rw [loss, exact.zero, exact.lt, exact.neg, fall]
  by_cases up : 0 < c
  · rw [if_pos (decide_eq_true up), max_eq_right (neg_nonpos.mpr up.le)]
  · rw [if_neg (by simpa using up), max_eq_left (neg_nonneg.mpr (not_lt.mp up))]

omit [IsStrictOrderedRing K] in
theorem smoothFrom_num (k start : K) (xs : List K) :
    num start :: smoothFrom (num k) (num start) (xs.map num) = (tracked k start xs).map num := by
  induction xs generalizing start with
  | nil => rfl
  | cons x rest ih =>
      rw [List.map_cons, smoothFrom, exact.approach, tracked, List.map_cons, ← ih]

theorem averages_num {period : Nat} (positive : 0 < period) {moves : List K}
    (seeded : period ≤ moves.length) :
    averages period (moves.map num) = (averaged period moves).map num := by
  have some : (period : K) ≠ 0 := Nat.cast_ne_zero.mpr positive.ne'
  have mean : mean ((moves.map num).take period) = num ((moves.take period).sum / period) := by
    rw [← List.map_take, Window.mean, exact.sum, List.length_map, List.length_take_of_le seeded,
      exact.ofCount, exact.div _ _ some]
  rw [averages, mean, exact.smmaAlpha positive, ← List.map_drop, smooth, smoothFrom_num exact,
    averaged]

end Numbers

/-! ## Steps -/

section Steps

variable [IsStrictOrderedRing K]

include exact in
theorem addChange_num (gain loss c : K) :
    addChange ⟨num gain, num loss⟩ (num c) = ⟨num (gain + rise c), num (loss + fall c)⟩ := by
  rw [addChange, exact.zero, exact.lt, rise, fall]
  by_cases up : 0 < c
  · rw [if_pos (decide_eq_true up), max_eq_left up.le, max_eq_right (neg_nonpos.mpr up.le),
      exact.add, add_zero]
  · have down := not_lt.mp up
    rw [if_neg (by simpa using up), max_eq_right down, max_eq_left (neg_nonneg.mpr down),
      exact.sub, add_zero, sub_eq_add_neg]

include exact in
theorem foldl_addChange_num (gain loss : K) (cs : List K) :
    (cs.map num).foldl addChange ⟨num gain, num loss⟩ =
      ⟨num (gain + (cs.map rise).sum), num (loss + (cs.map fall).sum)⟩ := by
  induction cs generalizing gain loss with
  | nil => simp only [List.map_nil, List.foldl_nil, List.sum_nil, add_zero]
  | cons c rest ih =>
      simp only [List.map_cons, List.foldl_cons, addChange_num exact, ih, List.sum_cons, add_assoc]

include exact in
theorem seed_num {period : Nat} (positive : 0 < period) (cs : List K) :
    seed period (cs.map num) =
      ⟨num ((cs.map rise).sum / period), num ((cs.map fall).sum / period)⟩ := by
  have some : (period : K) ≠ 0 := Nat.cast_ne_zero.mpr positive.ne'
  simp only [seed, exact.zero, foldl_addChange_num exact, zero_add, exact.ofCount,
    exact.div _ _ some]

variable (ordinary : Ordinary num) (discerning : Discerning num)

include exact ordinary in
omit [IsStrictOrderedRing K] in
theorem maxNum_num (x y : K) : maxNum (num x) (num y) = num (max x y) := by
  rw [maxNum, ordinary.isNaN, exact.lt]
  by_cases less : x < y
  · simp only [Bool.false_eq_true, if_false, decide_eq_true less, if_true, max_eq_right less.le]
  · simp only [Bool.false_eq_true, if_false, less, decide_false, max_eq_left (not_lt.mp less)]

include exact ordinary in
/-- A step of both averages goes a part `1 / period` of the way. -/
theorem next_num {period : Nat} (positive : 0 < period) (gain loss c : K) :
    next period ⟨num gain, num loss⟩ (num c) =
      ⟨num (gain + 1 / period * (rise c - gain)), num (loss + 1 / period * (fall c - loss))⟩ := by
  have some : (period : K) ≠ 0 := Nat.cast_ne_zero.mpr positive.ne'
  have step (x y : K) : (x * (period - 1) + y) / period = x + 1 / period * (y - x) := by
    field_simp
    ring
  simp only [next, exact.ofCount, exact.zero, exact.one, exact.neg, exact.sub, exact.mul,
    maxNum_num exact ordinary, exact.add, exact.div _ _ some, step, rise, fall]

include exact discerning in
/-- Whichever branch answers, the index is the share of the gain. -/
theorem value_num {gain loss : K} (up : 0 ≤ gain) (down : 0 ≤ loss) :
    value ⟨num gain, num loss⟩ = num (strength gain loss) := by
  rw [value, strength_eq]
  simp only [exact.zero, discerning.eq, decide_eq_true_eq]
  by_cases lossless : loss = 0
  · by_cases still : gain = 0
    · rw [if_pos lossless, if_pos still, if_pos (by rw [lossless, still, add_zero])]
      exact fifty exact
    · rw [if_pos lossless, if_neg still, lossless, add_zero, if_neg still,
        mul_div_cancel_right₀ _ still]
      exact hundred exact
  · -- both denominators are above zero, as no average is below it
    have positive : 0 < loss := lt_of_le_of_ne down (Ne.symm lossless)
    have total : gain + loss ≠ 0 := by positivity
    have denominator : 1 + gain / loss ≠ 0 := by positivity
    have share : 100 - 100 / (1 + gain / loss) = 100 * gain / (gain + loss) := by
      field_simp
      ring
    rw [if_neg lossless, if_neg total, hundred exact, exact.one, exact.div _ _ lossless, exact.add,
      exact.div _ _ denominator, exact.sub, share]

include exact ordinary discerning in
/-- The values from a state on are the shares of two averages that go on from there. -/
theorem valuesFrom_num {period : Nat} (positive : 0 < period) {gain loss : K} (up : 0 ≤ gain)
    (down : 0 ≤ loss) (cs : List K) :
    value ⟨num gain, num loss⟩ :: valuesFrom period ⟨num gain, num loss⟩ (cs.map num) =
      (List.zipWith strength (tracked (1 / (period : K)) gain (cs.map rise))
        (tracked (1 / (period : K)) loss (cs.map fall))).map num := by
  -- the invariant is that neither average falls below zero
  induction cs generalizing gain loss with
  | nil => exact congrArg (fun v => [v]) (value_num exact discerning up down)
  | cons c rest ih =>
      have stays {level x : K} (levelNonneg : 0 ≤ level) (partNonneg : 0 ≤ x) :
          0 ≤ level + 1 / period * (x - level) :=
        approach_nonneg (part_nonneg period) (part_le_one positive) levelNonneg partNonneg
      have later := ih (stays up (rise_nonneg c)) (stays down (fall_nonneg c))
      rw [List.map_cons, valuesFrom, next_num exact ordinary positive, later,
        value_num exact discerning up down]
      rfl

include exact ordinary discerning in
theorem values_num {period : Nat} (positive : 0 < period) (xs : List K) :
    values period (xs.map num) = (indexes period xs).map num := by
  by_cases short : xs.length ≤ period
  · rw [values_short (by rwa [List.length_map]), List.length_map, indexes, if_pos short,
      List.map_replicate, fifty exact]
  · have mean_nonneg (part : K → K) (nonneg : ∀ c, 0 ≤ part c) :
        0 ≤ (((steps xs).take period).map part).sum / (period : K) :=
      div_nonneg (List.sum_nonneg (List.forall_mem_map.mpr fun c _ => nonneg c))
        (Nat.cast_nonneg _)
    have later := valuesFrom_num exact ordinary discerning positive (mean_nonneg rise rise_nonneg)
      (mean_nonneg fall fall_nonneg) ((steps xs).drop period)
    rw [values_long (by rw [List.length_map]; omega), changes_num exact, ← List.map_take,
      seed_num exact positive, ← List.map_drop, later, indexes, if_neg short, averaged, averaged,
      List.map_append, List.map_replicate, fifty exact]
    simp only [List.map_take, List.map_drop]

end Steps

/-! ## Laws -/

section Laws

variable [IsStrictOrderedRing K]

include exact in
/-- Half of all movement where nothing moves, and else the part of the gain. -/
theorem strength_num {gain loss : K} (up : 0 ≤ gain) (down : 0 ≤ loss) :
    num (strength gain loss) =
      if lt 0 (num gain + num loss) then 100 * num gain / (num gain + num loss) else 50 := by
  rw [exact.add, exact.zero, exact.lt, strength_eq]
  by_cases still : gain + loss = 0
  · rw [if_pos still, if_neg (by simp [still]), fifty exact]
  · have total : 0 < gain + loss := lt_of_le_of_ne (add_nonneg up down) (Ne.symm still)
    rw [if_neg still, if_pos (decide_eq_true total), hundred exact, exact.mul, exact.div _ _ still]

include exact in
theorem indexes_num (discerning : Discerning num) {period : Nat} (positive : 0 < period)
    (xs : List K) : Indexes period (xs.map num) ((indexes period xs).map num) where
  length := by rw [List.length_map, List.length_map, length_indexes]
  range := by
    refine List.forall_mem_map.mpr fun v member => ?_
    rw [exact.zero, hundred exact, exact.within]
    exact indexes_range positive xs v member
  start i early inside := by
    rw [List.length_map] at inside
    rw [List.getElem?_map, indexes_early early inside]
    exact congrArg some (fifty exact).symm
  share i late inside := by
    rw [List.length_map] at inside
    obtain ⟨gains, losses, isGain, isLoss, share, up, down, moved⟩ :=
      indexes_getElem? positive late inside
    have seeded (part : K → K) : period ≤ ((steps xs).map part).length := by
      rw [List.length_map, length_steps]
      omega
    refine ⟨num gains, num losses, ?_, ?_, ?_, ?_⟩
    · rw [changes_num exact, map_num (gain_num exact),
        averages_num exact positive (seeded rise), List.getElem?_map, isGain, Option.map_some]
    · rw [changes_num exact, map_num (loss_num exact),
        averages_num exact positive (seeded fall), List.getElem?_map, isLoss, Option.map_some]
    · rw [List.getElem?_map, share, Option.map_some, strength_num exact up down]
    · rw [exact.add, exact.zero, exact.lt, decide_eq_true_eq, moved, changes_num exact,
        remembered_map]
      simp only [List.mem_map, exists_exists_and_eq_and, discerning.eq, decide_eq_false_iff_not,
        ne_eq]

end Laws

end Exact

/-- The laws of the relative strength index. For every period and finite series its values lie
between 0 and 100, start at 50, and are from there on 100 times the part of the smoothed gains in
all smoothed movement (`Indexes`). Reflecting the series subtracts all values from 100, and a change
of scale or level leaves them as they are. -/
theorem strength_laws {K : Type} [Field K] [LinearOrder K] [IsStrictOrderedRing K] {num : K → α}
    (exact : Exact num) (ordinary : Ordinary num) (discerning : Discerning num) {period : Nat}
    (positive : 0 < period) {data : List α} (finite : ∀ x ∈ data, isFinite x = true) :
    Indexes period data (values period data) ∧
    (∀ c : α, isFinite c = true →
      values period (data.map fun x => c - x) = (values period data).map fun v => 100 - v) ∧
    ∀ a b : α, isFinite a = true → isFinite b = true → lt 0 a = true →
      values period (data.map fun x => a * x + b) = values period data := by
  obtain ⟨xs, rfl⟩ := exact.exists_map finite
  have known := values_num exact ordinary discerning positive
  refine ⟨?_, ?_, ?_⟩
  · rw [known]
    exact indexes_num exact discerning positive xs
  · intro c finiteC
    obtain ⟨k, rfl⟩ := (exact.isFinite c).mp finiteC
    have turned (v : K) : 100 - num v = num (100 - v) := by rw [hundred exact, exact.sub]
    rw [map_num (exact.sub k), known, known, indexes_reflect, map_num turned]
  · intro a b finiteA finiteB above
    obtain ⟨k, rfl⟩ := (exact.isFinite a).mp finiteA
    obtain ⟨l, rfl⟩ := (exact.isFinite b).mp finiteB
    rw [exact.zero, exact.lt, decide_eq_true_eq] at above
    have scaled (x : K) : num k * num x + num l = num (k * x + l) := by rw [exact.mul, exact.add]
    rw [map_num scaled, known, known, indexes_affine above]

/-- Two gains, a loss and a pause: the pause shrinks both averages alike, and leaves the index. -/
theorem strength_laws_ratio :
    let data : List Ratio := [.of 10, .of 12, .of 11, .of 11, .of 14]
    Exact Ratio.of ∧ Ordinary Ratio.of ∧ Discerning Ratio.of ∧ 0 < 2 ∧
    (∀ x ∈ data, isFinite x = true) ∧
    values 2 data = [.of 50, .of 50, .of (200 / 3), .of (200 / 3), .of (280 / 3)] ∧
    Indexes 2 data (values 2 data) ∧
    values 2 (data.map fun x => .of 20 - x) = (values 2 data).map (fun v => 100 - v) ∧
    values 2 (data.map fun x => .of 3 * x + .of 1) = values 2 data := by
  intro data
  have finite : ∀ x ∈ data, isFinite x = true := by decide
  obtain ⟨indexes, reflected, moved⟩ := strength_laws Ratio.exact Ratio.ordinary Ratio.discerning
    two_pos finite
  exact ⟨Ratio.exact, Ratio.ordinary, Ratio.discerning, two_pos, finite, by decide +kernel, indexes,
    reflected (.of 20) rfl, moved (.of 3) (.of 1) rfl rfl (by decide +kernel)⟩

end Chartist.Rsi
