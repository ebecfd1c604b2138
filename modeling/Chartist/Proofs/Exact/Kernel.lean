import Chartist.Proofs.Catalog
import Chartist.Proofs.Exact.Window
import Chartist.Proofs.Extended
import Chartist.Proofs.Order.Gap

/-!
# Kernels average the values of a window

The weights of a kernel are numbers above zero, so what they average lies between the least and the
greatest value of the window, and rises with every one of them (`weightedMean_le`). All kernels but
the linear one weight a window the same from both ends; the binomial one has a row of Pascal's
triangle, as multiplying before dividing leaves no remainder at any place (`binomialFrom_num`).
Main statement: `kernels_average`, for windows of every length, short ones at the start included.
-/

namespace Chartist.Window

open Scalar

/-! ## Weighted means of numbers -/

section Numbers

variable {K : Type} [Field K] [LinearOrder K]

/-- The mean of numbers that have a weight each. -/
def weightedMean (weights xs : List K) : K :=
  (List.zipWith (· * ·) xs weights).sum / weights.sum

omit [LinearOrder K] in
/-- All weights on one number. -/
theorem weightedMean_constant {weights xs : List K} {c : K} (total : weights.sum ≠ 0)
    (aligned : xs.length = weights.length) (same : ∀ x ∈ xs, x = c) :
    weightedMean weights xs = c := by
  have products : (List.zipWith (· * ·) xs weights).sum = c * weights.sum := by
    clear total
    induction xs generalizing weights with
    | nil =>
        rw [List.length_eq_zero_iff.mp aligned.symm]
        simp
    | cons x xs ih =>
        cases weights with
        | nil => cases aligned
        | cons w weights =>
            obtain ⟨here, later⟩ := List.forall_mem_cons.mp same
            rw [List.zipWith_cons_cons, List.sum_cons, ih (Nat.succ.inj aligned) later, here,
              List.sum_cons, mul_add]
  rw [weightedMean, products, mul_div_cancel_right₀ _ total]

variable [IsStrictOrderedRing K]

/-- A mean with positive weights rises with each number. -/
theorem weightedMean_le {weights xs ys : List K} (positive : ∀ w ∈ weights, 0 < w)
    (below : List.Forall₂ (· ≤ ·) xs ys) : weightedMean weights xs ≤ weightedMean weights ys := by
  have products : (List.zipWith (· * ·) xs weights).sum ≤
      (List.zipWith (· * ·) ys weights).sum := by
    induction below generalizing weights with
    | nil => exact le_rfl
    | cons here _ ih =>
        cases weights with
        | nil => exact le_rfl
        | cons w weights =>
            obtain ⟨first, others⟩ := List.forall_mem_cons.mp positive
            rw [List.zipWith_cons_cons, List.zipWith_cons_cons, List.sum_cons, List.sum_cons]
            exact add_le_add (mul_le_mul_of_nonneg_right here first.le) (ih others)
  have total : 0 ≤ weights.sum := List.sum_nonneg fun w member => (positive w member).le
  exact div_le_div_of_nonneg_right products total

variable {weights xs : List K} {c : K} (positive : ∀ w ∈ weights, 0 < w)
  (total : 0 < weights.sum) (aligned : xs.length = weights.length)
include positive total aligned

theorem weightedMean_le_of_forall_le (bound : ∀ x ∈ xs, x ≤ c) : weightedMean weights xs ≤ c := by
  have below : List.Forall₂ (· ≤ ·) xs (xs.map fun _ => c) := by
    rw [List.forall₂_map_right_iff, List.forall₂_same]
    exact bound
  calc weightedMean weights xs
      ≤ weightedMean weights (xs.map fun _ => c) := weightedMean_le positive below
    _ = c := weightedMean_constant total.ne' (by rwa [List.length_map]) (by simp)

theorem le_weightedMean_of_forall_le (bound : ∀ x ∈ xs, c ≤ x) : c ≤ weightedMean weights xs := by
  have below : List.Forall₂ (· ≤ ·) (xs.map fun _ => c) xs := by
    rw [List.forall₂_map_left_iff, List.forall₂_same]
    exact bound
  calc c = weightedMean weights (xs.map fun _ => c) :=
        (weightedMean_constant total.ne' (by rwa [List.length_map]) (by simp)).symm
    _ ≤ weightedMean weights xs := weightedMean_le positive below

end Numbers

/-! ## Weights -/

namespace Kernel

variable {α : Type} [Scalar α]

theorem pos_of_validate {k : Kernel} {length : Nat}
    (accepted : (k.validate length : Except (StudyError α) Unit) = .ok ()) : 0 < length := by
  obtain ⟨_, passed, -⟩ := exists_of_bind_ok accepted
  exact checkPeriod_pos passed

/-- A positive weight for each place of a window, the same from both ends unless the kernel is the
linear one, and a row of Pascal's triangle if it is the binomial one. -/
structure Weighs (k : Kernel) (length : Nat) (weights : List α) : Prop where
  count : weights.length = length
  positive : ∀ w ∈ weights, isPositive w = true
  symmetric : k ≠ .linear → weights.reverse = weights
  binomial : k = .binomial → ∀ i, i < length →
    weights[i]? = some (ofCount ((length - 1).choose i))

omit [Scalar α] in
theorem reverse_map_range {f : Nat → α} {n : Nat}
    (mirrored : ∀ i, i < n → f (n - 1 - i) = f i) :
    ((List.range n).map f).reverse = (List.range n).map f := by
  apply List.ext_getElem
  · simp
  · intro i inside _
    rw [List.length_reverse, List.length_map, List.length_range] at inside
    simp [mirrored i inside]

variable {K : Type} [Field K] [LinearOrder K] [IsStrictOrderedRing K] {num : K → α}
  (exact : Exact num)
include exact

/-- From any place on, the binomial weights go on with Pascal's triangle. -/
theorem binomialFrom_num {row k left : Nat} (places : k + left = row + 1) :
    binomialFrom (num (row.choose k)) k left =
      (List.range' k left).map fun j => num (row.choose j) := by
  induction left generalizing k with
  | zero => rfl
  | succ left ih =>
      have rest : left = row - k := by omega
      have divisor : ((k + 1 : Nat) : K) ≠ 0 := Nat.cast_ne_zero.mpr (Nat.succ_ne_zero k)
      -- the divisor goes into the product, which is the next coefficient that many times
      have next : (row.choose k * left / (k + 1 : Nat) : K) = row.choose (k + 1) := by
        rw [div_eq_iff divisor, rest]
        exact_mod_cast (Nat.choose_succ_right_eq row k).symm
      rw [binomialFrom, exact.ofCount, exact.ofCount, exact.mul, exact.div _ _ divisor, next,
        ih (by omega), List.range'_succ, List.map_cons]

theorem binomial_weights (length : Nat) :
    (Kernel.binomial.weights length : List α) =
      (List.range length).map fun j => ofCount ((length - 1).choose j) := by
  cases length with
  | zero => rfl
  | succ row =>
      have first : (1 : α) = num (row.choose 0) := by
        rw [Nat.choose_zero_right, Nat.cast_one, exact.one]
      rw [weights, first, binomialFrom_num exact (by omega), List.range_eq_range']
      simp only [exact.ofCount, Nat.add_sub_cancel]

/-- As many places from the end, the sine has come as far from half a turn. -/
theorem mirrored_sine (arched : Arched num) {i length : Nat} (inside : i < length) :
    sin (pi * ofCount (length - 1 - i + 1) / (ofCount length + 1) : α) =
      sin (pi * ofCount (i + 1) / (ofCount length + 1)) := by
  obtain ⟨p, isPi, -, -⟩ := arched.positive
  have places : (length : K) + 1 ≠ 0 := Nat.cast_add_one_ne_zero length
  have other : ((length - 1 - i + 1 : Nat) : K) = length + 1 - (i + 1 : Nat) := by
    rw [eq_sub_iff_add_eq]
    exact_mod_cast (by omega : length - 1 - i + 1 + (i + 1) = length + 1)
  have turned : p * (length - 1 - i + 1 : Nat) / ((length : K) + 1) =
      p - p * (i + 1 : Nat) / (length + 1) := by
    rw [other, mul_sub, sub_div, mul_div_cancel_right₀ _ places]
  have mirror := arched.mirror (p * (i + 1 : Nat) / (length + 1))
  rw [isPi, exact.sub] at mirror
  rw [isPi, exact.ofCount, exact.ofCount, exact.ofCount, exact.one, exact.add, exact.mul,
    exact.mul, exact.div _ _ places, exact.div _ _ places, turned, mirror]

theorem reverse_weights (arched : Arched num) {k : Kernel} (other : k ≠ .linear) (length : Nat) :
    (k.weights length : List α).reverse = k.weights length := by
  cases k with
  | uniform => exact List.reverse_replicate
  | linear => exact absurd rfl other
  | triangular =>
      apply reverse_map_range
      intro i inside
      congr 1
      omega
  | sine =>
      apply reverse_map_range
      intro i inside
      exact mirrored_sine exact arched inside
  | binomial =>
      rw [binomial_weights exact]
      apply reverse_map_range
      intro i inside
      rw [Nat.choose_symm (by omega)]

theorem weighs (arched : Arched num) (k : Kernel) (length : Nat) :
    k.Weighs length (k.weights length : List α) where
  count := k.length_weights length
  positive w member := by
    rw [exact.isPositive]
    exact k.positive_weights exact arched.positive length w member
  symmetric other := reverse_weights exact arched other length
  binomial isBinomial i inside := by
    subst isBinomial
    rw [binomial_weights exact, List.getElem?_map, List.getElem?_range inside, Option.map_some]

/-! ## Averages -/

omit [IsStrictOrderedRing K] in
theorem average_num {k : Kernel} {weights xs : List K}
    (known : (k.weights xs.length : List α) = weights.map num) (total : weights.sum ≠ 0) :
    k.average (xs.map num) = num (weightedMean weights xs) := by
  rw [average, List.length_map, known, exact.dot_numbers, exact.sum, exact.div _ _ total,
    weightedMean]

omit [IsStrictOrderedRing K] in
/-- Equal weights average as the mean does. -/
theorem average_uniform (xs : List K) :
    Kernel.uniform.average (xs.map num) = mean (xs.map num) := by
  have ones : (Kernel.uniform.weights xs.length : List α) =
      (List.replicate xs.length (1 : K)).map num := by
    rw [weights, List.map_replicate, exact.one]
  have products (ys : List K) :
      List.zipWith (· * ·) ys (List.replicate ys.length 1) = ys := by
    induction ys with
    | nil => rfl
    | cons y rest ih =>
        rw [List.length_cons, List.replicate_succ, List.zipWith_cons_cons, mul_one, ih]
  have count : (List.replicate xs.length (1 : K)).sum = xs.length := by simp
  rw [average, mean, List.length_map, ones, exact.dot_numbers, products, exact.sum, exact.sum,
    count, exact.ofCount]

end Kernel

section Windows

variable {α : Type} [Scalar α]

/-- The averages of a kernel over a series: at every index a value between the least and the
greatest one of the window, which does not fall where no value of the window does. -/
structure Averages (k : Kernel) (data : List α) (length : Nat) : Prop where
  count : (weightedAverage data k length).length = data.length
  between : ∀ i, i < data.length → ∃ average, (weightedAverage data k length)[i]? = some average ∧
    within (lowest (trailing data i length)) average (highest (trailing data i length)) = true
  monotone : ∀ (higher : List α) (i : Nat), i < data.length → higher.length = data.length →
    (∀ x ∈ higher, isFinite x = true) →
    (∀ j x y, i < j + length → j ≤ i → data[j]? = some x → higher[j]? = some y →
      le x y = true) →
    ∃ before after, (weightedAverage data k length)[i]? = some before ∧
      (weightedAverage higher k length)[i]? = some after ∧ le before after = true

variable {K : Type} [Field K] [LinearOrder K] {num : K → α} (exact : Exact num)
include exact

theorem weightedAverage_uniform (xs : List K) (length : Nat) :
    weightedAverage (xs.map num) .uniform length = rollingMean (xs.map num) length := by
  simp only [weightedAverage, rollingMean, rolling_map, Kernel.average_uniform exact]

/-! ### Between the extremes -/

section Order

variable (ordinary : Ordinary num) {L : Type} [LinearOrder L] {place : α → L}
  (ordered : Ordered place)
include ordinary ordered

/-- Numbers stand in their places in order. -/
theorem place_le_place (x y : K) : place (num x) ≤ place (num y) ↔ x ≤ y := by
  have same := (ordered.le _ _ (ordinary.isNaN x) (ordinary.isNaN y)).symm.trans (exact.le x y)
  rwa [decide_eq_decide] at same

variable (incomparable : Incomparable α) {window : List K} {a : K}
include incomparable

theorem le_highest (some : window ≠ []) (below : ∀ hi, (∀ x ∈ window, x ≤ hi) → a ≤ hi) :
    le (num a) (highest (window.map num)) = true := by
  obtain ⟨-, -, isHighest⟩ := highest_window ordered (by simpa using some)
    (ordinary.isNaN_map window)
  obtain ⟨number, ⟨y, member, same⟩, bound⟩ := places_of_isHighest ordered incomparable isHighest
  obtain ⟨hi, -, rfl⟩ := List.mem_map.mp member
  rw [ordered.le _ _ (ordinary.isNaN a) number, decide_eq_true_eq, same,
    place_le_place exact ordinary ordered]
  apply below
  intro x inside
  rw [← place_le_place exact ordinary ordered, ← same]
  exact bound _ (List.mem_map_of_mem inside)

theorem lowest_le (some : window ≠ []) (above : ∀ lo, (∀ x ∈ window, lo ≤ x) → lo ≤ a) :
    le (lowest (window.map num)) (num a) = true := by
  obtain ⟨-, -, isLowest⟩ := lowest_window ordered (by simpa using some)
    (ordinary.isNaN_map window)
  obtain ⟨number, ⟨y, member, same⟩, bound⟩ := places_of_isLowest ordered incomparable isLowest
  obtain ⟨lo, -, rfl⟩ := List.mem_map.mp member
  rw [ordered.le _ _ number (ordinary.isNaN a), decide_eq_true_eq, same,
    place_le_place exact ordinary ordered]
  apply above
  intro x inside
  rw [← place_le_place exact ordinary ordered, ← same]
  exact bound _ (List.mem_map_of_mem inside)

end Order

/-! ### Rising with the values -/

variable [IsStrictOrderedRing K]

omit exact [Scalar α] [Field K] [IsStrictOrderedRing K] in
/-- Series that rise at every index of a window have rising windows. -/
theorem trailing_le {xs ys : List K} {i length : Nat} (inside : i < xs.length)
    (aligned : ys.length = xs.length)
    (below : ∀ j x y, i < j + length → j ≤ i → xs[j]? = some x → ys[j]? = some y → x ≤ y) :
    List.Forall₂ (· ≤ ·) (trailing xs i length) (trailing ys i length) := by
  have insideYs : i < ys.length := aligned ▸ inside
  rw [List.forall₂_iff_get]
  refine ⟨by rw [length_trailing inside, length_trailing insideYs], ?_⟩
  intro k inXs inYs
  -- place `k` of either window is an index of its series that the bound is about
  have place : k < span i length := by rwa [length_trailing inside] at inXs
  have x : (trailing xs i length)[k]? = xs[start i length + k]? := getElem?_trailing place
  have y : (trailing ys i length)[k]? = ys[start i length + k]? := getElem?_trailing place
  rw [List.getElem?_eq_getElem inXs] at x
  rw [List.getElem?_eq_getElem inYs] at y
  refine below (start i length + k) _ _ ?_ ?_ x.symm y.symm
  · unfold start
    unfold span at place ⊢
    omega
  · unfold start
    unfold span at place ⊢
    omega

/-! ### Every kernel -/

variable (arched : Arched num) (ordinary : Ordinary num) {L : Type} [LinearOrder L] {place : α → L}
  (ordered : Ordered place) (incomparable : Incomparable α)
include arched ordinary ordered incomparable

/-- The average of a window is a mean of its numbers with positive weights. -/
theorem averages (k : Kernel) (xs : List K) {length : Nat} (positive : 0 < length) :
    Averages k (xs.map num) length where
  count := length_rolling _ _ _
  between i inside := by
    refine ⟨_, getElem?_rolling _ inside length, ?_⟩
    rw [List.length_map] at inside
    have some := trailing_ne_nil inside positive
    obtain ⟨weights, known, count, above, total⟩ :=
      k.exists_weights exact arched.positive (List.length_pos_iff.mpr some)
    rw [trailing_map, Kernel.average_num exact known total.ne', within, Bool.and_eq_true]
    constructor
    · apply lowest_le exact ordinary ordered incomparable some
      intro lo bound
      exact le_weightedMean_of_forall_le above total count.symm bound
    · apply le_highest exact ordinary ordered incomparable some
      intro hi bound
      exact weightedMean_le_of_forall_le above total count.symm bound
  monotone higher i inside aligned finite raised := by
    obtain ⟨ys, rfl⟩ := exact.exists_map finite
    refine ⟨_, _, getElem?_rolling _ inside length,
      getElem?_rolling _ (aligned ▸ inside) length, ?_⟩
    rw [List.length_map] at inside aligned
    rw [List.length_map] at aligned
    have some := trailing_ne_nil inside positive
    -- windows of one length have the same weights, so only their values count
    have spans : (trailing ys i length).length = (trailing xs i length).length := by
      rw [length_trailing inside, length_trailing (aligned ▸ inside)]
    obtain ⟨weights, known, -, above, total⟩ :=
      k.exists_weights exact arched.positive (List.length_pos_iff.mpr some)
    have below : List.Forall₂ (· ≤ ·) (trailing xs i length) (trailing ys i length) := by
      apply trailing_le inside aligned
      intro j x y after before here there
      have numbers := raised j (num x) (num y) after before (by rw [List.getElem?_map, here]; rfl)
        (by rw [List.getElem?_map, there]; rfl)
      rwa [exact.le, decide_eq_true_eq] at numbers
    rw [trailing_map, trailing_map, Kernel.average_num exact known total.ne',
      Kernel.average_num exact (spans ▸ known) total.ne', exact.le, decide_eq_true_eq]
    exact weightedMean_le above below

end Windows

/-- Kernels weight and average as they should. The weights of a window are positive, symmetric but
for the linear kernel and a row of Pascal's triangle for the binomial one (`Kernel.Weighs`). Over a
finite series every average of a kernel, also that of a short window at the start, lies between the
least and the greatest value of its window and rises with each of them (`Averages`), and equal
weights are those of the rolling mean. Any positive length will do, so any that a kernel accepts. -/
theorem kernels_average {α : Type} [Scalar α] {K : Type} [Field K] [LinearOrder K]
    [IsStrictOrderedRing K] {num : K → α} (exact : Exact num) (arched : Arched num)
    (ordinary : Ordinary num) {L : Type} [LinearOrder L] {place : α → L} (ordered : Ordered place)
    (incomparable : Incomparable α) :
    (∀ (k : Kernel) (length : Nat), k.Weighs length (k.weights length : List α)) ∧
    (∀ (k : Kernel) (length : Nat),
      (k.validate length : Except (StudyError α) Unit) = .ok () → 0 < length) ∧
    ∀ data : List α, (∀ x ∈ data, isFinite x = true) → ∀ length, 0 < length →
      (∀ k, Averages k data length) ∧
      weightedAverage data .uniform length = rollingMean data length := by
  refine ⟨Kernel.weighs exact arched, ?_, ?_⟩
  · intro k length accepted
    exact Kernel.pos_of_validate accepted
  · intro data finite length positive
    obtain ⟨xs, rfl⟩ := exact.exists_map finite
    constructor
    · intro k
      exact averages exact arched ordinary ordered incomparable k xs positive
    · exact weightedAverage_uniform exact xs length

/-- Four values with the weights 1, 3, 3 and 1 of the binomial kernel, and two at the start of the
series, where the weights are 1 and 1. -/
theorem kernels_average_binomial :
    let data : List Extended := [.number 1, .number 4, .number 2, .number 8]
    Exact Extended.number ∧ Arched Extended.number ∧ Ordinary Extended.number ∧
    Ordered Extended.place ∧ Incomparable Extended ∧ (∀ x ∈ data, isFinite x = true) ∧
    (Kernel.binomial.validate 4 : Except (StudyError Extended) Unit) = .ok () ∧
    (Kernel.binomial.weights 4 : List Extended) = [.number 1, .number 3, .number 3, .number 1] ∧
    Kernel.binomial.Weighs 4 (Kernel.binomial.weights 4 : List Extended) ∧
    (weightedAverage data .binomial 4)[1]? = some (.number (5 / 2)) ∧
    (weightedAverage data .binomial 4)[3]? = some (.number (27 / 8)) ∧
    Averages .binomial data 4 ∧
    weightedAverage data .uniform 4 = rollingMean data 4 := by
  intro data
  have finite : ∀ x ∈ data, isFinite x = true := by decide
  have accepted : (Kernel.binomial.validate 4 : Except (StudyError Extended) Unit) = .ok () := rfl
  obtain ⟨weights, positive, averages⟩ := kernels_average Extended.exact Extended.arched
    Extended.ordinary Extended.ordered Extended.incomparable
  obtain ⟨each, uniform⟩ := averages data finite 4 (positive .binomial 4 accepted)
  exact ⟨Extended.exact, Extended.arched, Extended.ordinary, Extended.ordered,
    Extended.incomparable, finite, accepted, by decide +kernel, weights .binomial 4,
    by decide +kernel, by decide +kernel, each .binomial, uniform⟩

end Chartist.Window
