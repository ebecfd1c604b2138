import Chartist.Proofs.Exact.Deviation
import Chartist.Proofs.Exact.Progress
import Chartist.Proofs.Local.Deque
import Chartist.Proofs.Real

/-!
# Deviations of nested windows

A window ends with every shorter window that ends at the same index. The squared distances of the
shorter one from its own mean are at most those from the mean of the longer one, and these are
among the squares of the longer one (`spread_le_of_sublist`). So the variance of the shorter window
exceeds that of the longer one by no more than the quotient of their lengths, and the deviation by
no more than its root (`sigma_le_of_sublist`). That bounds the volatility ratio, and with it the
factors that it scales (`nested_deviations_bounded`).
-/

namespace Chartist.Window

open Adaptive Chartist.Filter Scalar

/-- Of two windows that end at one index, the longer one ends with the shorter one. -/
theorem trailing_suffix {σ : Type} (data : List σ) (stop : Nat) {short long : Nat}
    (le : short ≤ long) : trailing data stop short <:+ trailing data stop long := by
  have later : stop + 1 - short = stop + 1 - long + (stop + 1 - short - (stop + 1 - long)) := by
    omega
  rw [trailing_eq_drop, trailing_eq_drop, later, ← List.drop_drop]
  exact List.drop_suffix _ _

/-! ## Parts of a list -/

theorem ne_nil_of_sublist {σ : Type} {xs ys : List σ} (part : xs.Sublist ys) (some : xs ≠ []) :
    ys ≠ [] := by
  rintro rfl
  exact some (List.sublist_nil.mp part)

section Numbers

variable {K : Type} [Field K] [LinearOrder K] [IsStrictOrderedRing K] {xs ys : List K}

/-- The squares about the mean are least. -/
theorem spread_le_sum_sq (c : K) (xs : List K) :
    spread xs ≤ (xs.map fun x => (x - c) ^ 2).sum := by
  rw [sum_sq_sub]
  exact le_add_of_nonneg_right (mul_nonneg (Nat.cast_nonneg _) (sq_nonneg _))

/-- A part of a list has no more spread than the whole of it. -/
theorem spread_le_of_sublist (part : xs.Sublist ys) : spread xs ≤ spread ys :=
  calc spread xs
      ≤ (xs.map fun x => (x - center ys) ^ 2).sum := spread_le_sum_sq (center ys) xs
    _ ≤ spread ys := (part.map _).sum_le_sum (List.forall_mem_map.mpr fun _ _ => sq_nonneg _)

end Numbers

section Reals

variable {xs ys : List ℝ}

/-- The deviation of a part exceeds that of the whole by no more than the root of the quotient of
their lengths. -/
theorem sigma_le_of_sublist (part : xs.Sublist ys) (some : xs ≠ []) :
    sigma xs ≤ √(ys.length / xs.length) * sigma ys := by
  have whole := ne_nil_of_sublist part some
  have cancelled : (ys.length / xs.length : ℝ) * (spread ys / ys.length) =
      spread ys / xs.length := by
    rw [div_mul_div_comm, mul_comm (xs.length : ℝ), mul_div_mul_left _ _ (length_ne_zero whole)]
  rw [sigma, sigma, ← Real.sqrt_mul (by positivity), cancelled]
  exact Real.sqrt_le_sqrt
    (div_le_div_of_nonneg_right (spread_le_of_sublist part) (Nat.cast_nonneg _))

/-- The quotient of two deviations; 0 where the second one counts as none. -/
noncomputable def sigmaRatio (xs ys : List ℝ) : ℝ :=
  if leastPath < sigma ys then sigma xs / sigma ys else 0

theorem sigmaRatio_nonneg (xs ys : List ℝ) : 0 ≤ sigmaRatio xs ys := by
  unfold sigmaRatio
  split
  · exact div_nonneg (sigma_nonneg xs) (sigma_nonneg ys)
  · exact le_rfl

theorem sigmaRatio_le_of_sublist (part : xs.Sublist ys) (some : xs ≠ []) :
    sigmaRatio xs ys ≤ √(ys.length / xs.length) := by
  unfold sigmaRatio
  split
  · exact div_le_of_le_mul₀ (sigma_nonneg ys) (Real.sqrt_nonneg _) (sigma_le_of_sublist part some)
  · exact Real.sqrt_nonneg _

end Reals

/-! ## The volatility ratio of a series -/

section Series

variable {α : Type} [Scalar α] {num : ℝ → α} (exact : Exact num) (rooted : Rooted num)
  {short long : Nat} {i : Nat}
include exact rooted

theorem deviationRatio_num (shortPositive : 0 < short) (longPositive : 0 < long) {xs : List ℝ}
    (inside : i < xs.length) :
    (deviationRatio (xs.map num) short long)[i]? =
      some (num (sigmaRatio (trailing xs i short) (trailing xs i long))) := by
  have there : i < (xs.map num).length := by rwa [List.length_map]
  have deviates {length : Nat} (positive : 0 < length) :
      (rollingDeviation (xs.map num) length)[i]? = some (num (sigma (trailing xs i length))) := by
    rw [rollingDeviation, getElem?_rolling _ there, trailing_map,
      deviation_num exact rooted (trailing_ne_nil inside positive)]
  rw [deviationRatio, ratio, List.getElem?_zipWith, deviates shortPositive, deviates longPositive]
  simp only [epsilon_num exact, exact.lt, decide_eq_true_eq, sigmaRatio]
  split
  next deviating =>
    rw [exact.div _ _ (leastPath_pos.trans deviating).ne']
  next =>
    rw [exact.zero]

omit rooted in
/-- The lengths times the variances are the sums of squares. -/
theorem squares_le_of_sublist {xs ys : List ℝ} (part : xs.Sublist ys) (some : xs ≠ []) :
    le (ofCount xs.length * variance (xs.map num)) (ofCount ys.length * variance (ys.map num)) =
      true := by
  have whole := ne_nil_of_sublist part some
  have squares {zs : List ℝ} (nonempty : zs ≠ []) :
      ofCount zs.length * variance (zs.map num) = num (spread zs) := by
    rw [variance_num exact nonempty, exact.ofCount, exact.mul,
      mul_div_cancel₀ _ (length_ne_zero nonempty)]
  rw [squares some, squares whole, exact.le, decide_eq_true_eq]
  exact spread_le_of_sublist part

/-- The root of the quotient of two lengths. -/
theorem sqrt_lengths_num {xs ys : List ℝ} (some : xs ≠ []) :
    sqrt (ofCount ys.length / ofCount xs.length) = num √(ys.length / xs.length) := by
  rw [exact.ofCount, exact.ofCount, exact.div _ _ (length_ne_zero some), rooted _ (by positivity)]

omit rooted in
/-- What scales the factor of an exponential average carries its bound over. -/
theorem mul_emaAlpha_le {ratio bound : ℝ} (below : ratio ≤ bound) (period : Nat) :
    le (num ratio * emaAlpha period) (num bound * 2 / (ofCount period + 1)) = true := by
  have places : (period + 1 : ℝ) ≠ 0 := Nat.cast_add_one_ne_zero period
  rw [exact.emaAlpha, exact.mul, exact.natLit, exact.mul, exact.ofCount, exact.one, exact.add,
    exact.div _ _ places, exact.le, decide_eq_true_eq, mul_div_assoc]
  exact mul_le_mul_of_nonneg_right below (by positivity)

end Series

/-- The deviations of nested windows are bounded. Of two windows that end at an index of a finite
series, the sum of squares of the shorter one (its length times its variance) is at most that of the
longer one. So the quotient of their deviations lies between 0 and the root of the quotient of their
lengths, and the factor of a volatility average there, before it is clamped, is at most that root
times the factor of an exponential average. -/
theorem nested_deviations_bounded {α : Type} [Scalar α] {num : ℝ → α} (exact : Exact num)
    (rooted : Rooted num) {short long : Nat} (positive : 0 < short) (less : short < long)
    {data : List α} (finite : ∀ x ∈ data, isFinite x = true) {i : Nat} (inside : i < data.length) :
    let s : α := ofCount (min short (i + 1))
    let l : α := ofCount (min long (i + 1))
    le (s * variance (trailing data i short)) (l * variance (trailing data i long)) = true ∧
    ∃ ratio, (deviationRatio data short long)[i]? = some ratio ∧
      within 0 ratio (sqrt (l / s)) = true ∧
      ∀ (period : Nat) (trueRanges : Series α),
        (BarIndicator.volatilityAlphas period short long .deviation data trueRanges)[i]? =
          some (if i < long then 1 else clampAlpha (ratio * emaAlpha period)) ∧
        le (ratio * emaAlpha period) (sqrt (l / s) * 2 / (ofCount period + 1)) = true := by
  intro s l
  obtain ⟨xs, rfl⟩ := exact.exists_map finite
  rw [List.length_map] at inside
  have inner : trailing xs i short ≠ [] := trailing_ne_nil inside positive
  have part := (trailing_suffix xs i less.le).sublist
  have shortCount : (trailing xs i short).length = min short (i + 1) := length_trailing inside short
  have longCount : (trailing xs i long).length = min long (i + 1) := length_trailing inside long
  have known := deviationRatio_num exact rooted positive (positive.trans less) inside
  have bound := sigmaRatio_le_of_sublist part inner
  have root : sqrt (ofCount (trailing xs i long).length / ofCount (trailing xs i short).length) =
      num √((trailing xs i long).length / (trailing xs i short).length) :=
    sqrt_lengths_num exact rooted inner
  simp only [s, l]
  rw [← shortCount, ← longCount, root]
  refine ⟨?_, _, known, ?_, ?_⟩
  · rw [trailing_map, trailing_map]
    exact squares_le_of_sublist exact part inner
  · rw [exact.zero, exact.within]
    exact ⟨sigmaRatio_nonneg _ _, bound⟩
  · intro period trueRanges
    refine ⟨?_, mul_emaAlpha_le exact bound period⟩
    show (afterLookback long _ _)[i]? = _
    rw [afterLookback, List.getElem?_mapIdx, known, Option.map_some]

/-- The bound is reached: the values before the last two stand at the mean of these. -/
theorem nested_deviations_bounded_quantity :
    let data : List Quantity := [.of 2, .of 2, .of 1, .of 3]
    let reach : Quantity := sqrt (ofCount (min 4 4) / ofCount (min 2 4))
    Exact Quantity.of ∧ Rooted Quantity.of ∧ 0 < 2 ∧ 2 < 4 ∧ (∀ x ∈ data, isFinite x = true) ∧
    3 < data.length ∧ reach = .of √2 ∧ (deviationRatio data 2 4)[3]? = some (.of √2) ∧
    within 0 (.of √2) reach = true ∧
    le (.of √2 * emaAlpha 6) (reach * 2 / (ofCount 6 + 1)) = true := by
  intro data reach
  have rooted : Rooted Quantity.of := fun _ _ => rfl
  have finite : ∀ x ∈ data, isFinite x = true := fun _ _ => rfl
  have inside : 3 < data.length := by decide
  obtain ⟨-, ratio, found, range, factors⟩ := nested_deviations_bounded Quantity.exact rooted
    Nat.two_pos (by decide : 2 < 4) finite inside
  have root : reach = .of √2 := by
    simp only [reach]
    rw [Quantity.exact.ofCount, Quantity.exact.ofCount, Quantity.exact.div _ _ (by norm_num),
      rooted _ (by norm_num)]
    norm_num
  have inner : sigma [(1 : ℝ), 3] = 1 := by norm_num [sigma, spread, center]
  have outer : sigma [(2 : ℝ), 2, 1, 3] = (√2)⁻¹ := by norm_num [sigma, spread, center]
  have deviating : leastPath < (√2)⁻¹ := by
    rw [← Real.sqrt_inv, Real.lt_sqrt leastPath_pos.le]
    norm_num [leastPath]
  have known : (deviationRatio data 2 4)[3]? = some (.of √2) := by
    have numbers := deviationRatio_num Quantity.exact rooted Nat.two_pos (Nat.succ_pos 3)
      (show 3 < [(2 : ℝ), 2, 1, 3].length by decide)
    have windows : trailing [(2 : ℝ), 2, 1, 3] 3 2 = [1, 3] ∧
        trailing [(2 : ℝ), 2, 1, 3] 3 4 = [2, 2, 1, 3] := ⟨rfl, rfl⟩
    rw [windows.1, windows.2, sigmaRatio, inner, outer, if_pos deviating, one_div,
      inv_inv] at numbers
    exact numbers
  obtain rfl : ratio = .of √2 := Option.some_injective _ (found.symm.trans known)
  exact ⟨Quantity.exact, rooted, Nat.two_pos, by decide, finite, inside, root, known, range,
    (factors 6 []).2⟩

end Chartist.Window
