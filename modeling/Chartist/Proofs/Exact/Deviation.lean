import Chartist.Proofs.Reduction
import Mathlib.Analysis.SpecialFunctions.Pow.Real

/-!
# Deviations of numbers

The squared distances of numbers from a center are least about their mean, by the distance of the
mean from the center (`sum_sq_sub`). So they vanish only where all numbers are equal, and a sum is
bounded by the squares in it; applied to the others, that bounds the distance of one number from the
mean by the deviation of all of them (`sq_sub_center_le`). With exact arithmetic the statistics of a
window are those of its numbers (`mean_num`, `variance_num`, `deviation_num`).
-/

namespace Chartist.Window

open Scalar

section Numbers

variable {K : Type} [Field K] [LinearOrder K]

/-- The mean of numbers. -/
def center (xs : List K) : K := xs.sum / xs.length

/-- The sum of the squared distances from the mean. -/
def spread (xs : List K) : K := (xs.map fun x => (x - center xs) ^ 2).sum

variable [IsStrictOrderedRing K] {xs : List K}

theorem length_ne_zero (some : xs ≠ []) : (xs.length : K) ≠ 0 :=
  Nat.cast_ne_zero.mpr (List.length_pos_iff.mpr some).ne'

theorem length_mul_center (xs : List K) : xs.length * center xs = xs.sum := by
  cases xs with
  | nil => rw [List.length_nil, Nat.cast_zero, zero_mul, List.sum_nil]
  | cons x rest => exact mul_div_cancel₀ _ (length_ne_zero (List.cons_ne_nil x rest))

omit [LinearOrder K] [IsStrictOrderedRing K] in
theorem sum_sub (c : K) (xs : List K) : (xs.map (· - c)).sum = xs.sum - xs.length * c := by
  induction xs with
  | nil => rw [List.map_nil, List.sum_nil, List.length_nil, Nat.cast_zero, zero_mul, sub_zero]
  | cons x rest ih =>
      rw [List.map_cons, List.sum_cons, List.sum_cons, List.length_cons, ih, Nat.cast_succ]
      ring

/-- About any center, the squares exceed those about the mean by its distance from the center. -/
theorem sum_sq_sub (c : K) (xs : List K) :
    (xs.map fun x => (x - c) ^ 2).sum = spread xs + xs.length * (center xs - c) ^ 2 := by
  have expand (m : K) (ys : List K) : (ys.map fun x => (x - c) ^ 2).sum =
      (ys.map fun x => (x - m) ^ 2).sum + 2 * (m - c) * (ys.map (· - m)).sum +
        ys.length * (m - c) ^ 2 := by
    induction ys with
    | nil => simp
    | cons y rest ih =>
        simp only [List.map_cons, List.sum_cons, List.length_cons, ih, Nat.cast_succ]
        ring
  have balanced : (xs.map (· - center xs)).sum = 0 := by
    rw [sum_sub, length_mul_center, sub_self]
  rw [expand (center xs), balanced, mul_zero, add_zero, spread]

theorem spread_nonneg (xs : List K) : 0 ≤ spread xs :=
  List.sum_nonneg (List.forall_mem_map.mpr fun _ _ => sq_nonneg _)

/-- Numbers have no spread just where all of them are equal. -/
theorem spread_eq_zero_iff : spread xs = 0 ↔ ∀ x ∈ xs, ∀ y ∈ xs, x = y := by
  constructor
  · intro none
    have still : ∀ x ∈ xs, x = center xs := by
      intro x member
      have least := List.single_le_sum
        (List.forall_mem_map.mpr fun y _ => sq_nonneg (y - center xs)) _
        (List.mem_map_of_mem member)
      have zero : (x - center xs) ^ 2 = 0 := le_antisymm (least.trans none.le) (sq_nonneg _)
      exact sub_eq_zero.mp (pow_eq_zero_iff two_ne_zero |>.mp zero)
    intro x here y there
    rw [still x here, still y there]
  · intro same
    have still : ∀ x ∈ xs, x = center xs := by
      intro x member
      have constant := List.eq_replicate_iff.mpr ⟨rfl, fun y there => same y there x member⟩
      rw [center, constant, List.sum_replicate, List.length_replicate, nsmul_eq_mul,
        mul_div_cancel_left₀ _ (length_ne_zero (List.ne_nil_of_mem member))]
    apply List.sum_eq_zero
    rw [List.forall_mem_map]
    intro x member
    rw [← still x member, sub_self, zero_pow two_ne_zero]

/-- A sum is bounded by its squares. -/
theorem sq_sum_le (ys : List K) : ys.sum ^ 2 ≤ ys.length * (ys.map (· ^ 2)).sum := by
  have squares := sum_sq_sub 0 ys
  simp only [sub_zero] at squares
  have parts : ys.length * (spread ys + ys.length * center ys ^ 2) =
      ys.length * spread ys + ys.sum ^ 2 := by
    rw [← length_mul_center ys]
    ring
  rw [squares, parts]
  exact le_add_of_nonneg_left (mul_nonneg (Nat.cast_nonneg _) (spread_nonneg ys))

/-- The other numbers are on the other side of the mean, so one of them is not too far from it. -/
theorem sq_sub_center_le {x : K} (member : x ∈ xs) :
    xs.length * (x - center xs) ^ 2 ≤ (xs.length - 1) * spread xs := by
  have moved := List.perm_cons_erase member
  have count : (xs.length : K) = (xs.erase x).length + 1 := by
    rw [moved.length_eq, List.length_cons, Nat.cast_succ]
  -- all distances from the mean add up to nothing, so the others make up for that of `x`
  have others : ((xs.erase x).map (· - center xs)).sum = -(x - center xs) := by
    have balanced := (moved.map (· - center xs)).sum_eq
    rw [sum_sub, length_mul_center, sub_self, List.map_cons, List.sum_cons] at balanced
    exact eq_neg_of_add_eq_zero_right balanced.symm
  have parts : spread xs =
      (x - center xs) ^ 2 + ((xs.erase x).map fun y => (y - center xs) ^ 2).sum := by
    rw [spread, (moved.map fun y => (y - center xs) ^ 2).sum_eq, List.map_cons, List.sum_cons]
  have bound := sq_sum_le ((xs.erase x).map (· - center xs))
  rw [others, neg_sq, List.length_map, List.map_map] at bound
  rw [count, add_sub_cancel_right, parts, add_mul, one_mul, mul_add]
  exact add_le_add_right bound _

theorem center_reflect (c : K) (some : xs ≠ []) : center (xs.map (c - ·)) = c - center xs := by
  have total : (xs.map (c - ·)).sum = -(xs.map (· - c)).sum := by
    rw [List.sum_neg, List.map_map]
    simp only [Function.comp_def, neg_sub]
  rw [center, total, sum_sub, List.length_map, neg_sub, sub_div,
    mul_div_cancel_left₀ _ (length_ne_zero some), center]

theorem spread_reflect (c : K) (xs : List K) : spread (xs.map (c - ·)) = spread xs := by
  by_cases some : xs = []
  · rw [some, List.map_nil]
  · rw [spread, spread, center_reflect c some, List.map_map]
    have turned (x : K) : (c - x - (c - center xs)) ^ 2 = (x - center xs) ^ 2 := by ring
    simp only [Function.comp_def, turned]

end Numbers

/-! ## Statistics of windows -/

section Statistics

variable {α : Type} [Scalar α] {K : Type} [Field K] [LinearOrder K] [IsStrictOrderedRing K]
  {num : K → α} (exact : Exact num) {xs : List K} (some : xs ≠ [])
include exact some

theorem mean_num : mean (xs.map num) = num (center xs) := by
  rw [mean, exact.sum, exact.ofCount, List.length_map, exact.div _ _ (length_ne_zero some), center]

theorem variance_num : variance (xs.map num) = num (spread xs / xs.length) := by
  rw [variance, mean_num exact some, sumSqDev_num exact, exact.ofCount, List.length_map,
    exact.div _ _ (length_ne_zero some), spread]

end Statistics

/-! ## Deviations of real numbers -/

/-- The square root is the real one, for numbers that have one. -/
def Rooted {α : Type} [Scalar α] (num : ℝ → α) : Prop := ∀ x, 0 ≤ x → sqrt (num x) = num √x

/-- The population deviation of real numbers. -/
noncomputable def sigma (xs : List ℝ) : ℝ := √(spread xs / xs.length)

section Reals

variable {xs : List ℝ}

theorem variance_nonneg (xs : List ℝ) : 0 ≤ spread xs / xs.length :=
  div_nonneg (spread_nonneg xs) (Nat.cast_nonneg _)

theorem deviation_num {α : Type} [Scalar α] {num : ℝ → α} (exact : Exact num)
    (rooted : Rooted num) (some : xs ≠ []) : deviation (xs.map num) = num (sigma xs) := by
  rw [deviation, variance_num exact some, rooted _ (variance_nonneg xs), sigma]

theorem sigma_nonneg (xs : List ℝ) : 0 ≤ sigma xs := Real.sqrt_nonneg _

theorem sigma_eq_zero_iff (some : xs ≠ []) : sigma xs = 0 ↔ ∀ x ∈ xs, ∀ y ∈ xs, x = y := by
  rw [sigma, Real.sqrt_eq_zero (variance_nonneg xs), div_eq_zero_iff,
    or_iff_left (length_ne_zero some), spread_eq_zero_iff]

theorem sigma_reflect (c : ℝ) (xs : List ℝ) : sigma (xs.map (c - ·)) = sigma xs := by
  rw [sigma, sigma, spread_reflect, List.length_map]

/-- One of `n` numbers is at most `√(n - 1)` deviations away from their mean. -/
theorem abs_sub_center_le {x : ℝ} (member : x ∈ xs) :
    |x - center xs| ≤ √(xs.length - 1) * sigma xs := by
  have some := List.ne_nil_of_mem member
  have count : (0 : ℝ) < xs.length := Nat.cast_pos.mpr (List.length_pos_iff.mpr some)
  have others : (0 : ℝ) ≤ xs.length - 1 := by
    rw [sub_nonneg]
    exact_mod_cast List.length_pos_iff.mpr some
  have bound : (x - center xs) ^ 2 ≤ (xs.length - 1) * (spread xs / xs.length) := by
    rw [← mul_div_assoc, le_div_iff₀ count, mul_comm]
    exact sq_sub_center_le member
  rw [sigma, ← Real.sqrt_mul others]
  exact Real.abs_le_sqrt bound

end Reals

end Chartist.Window
