import Chartist.Filter.Cascade
import Chartist.Indicator.Method
import Chartist.Proofs.Exact.Linear
import Chartist.Proofs.Local.Basic
import Mathlib.Algebra.BigOperators.Group.List.Basic
import Mathlib.Algebra.Order.BigOperators.Group.List
import Mathlib.Tactic.Abel
import Mathlib.Tactic.Positivity

/-!
# Averages of windows are linear

With exact arithmetic every way of adding up gives the sum, in lanes or from the left, so an
average of a window is a weighted sum of its points (`weighted`). The weights of a kernel are
positive for every length, those of the sine as far as the sine is positive between zero and
half a turn (`Trigonometric`), and dividing by their sum leaves a constant as it is.
-/

namespace Chartist

open Chartist.Filter Window Scalar

variable {α K : Type} [Scalar α] [Field K] [LinearOrder K]

/-! ## Sums -/

section Sums

variable {num : K → α} (exact : Exact num)
include exact

theorem Exact.foldl_add (start : K) (xs : List K) :
    (xs.map num).foldl (· + ·) (num start) = num (start + xs.sum) := by
  induction xs generalizing start with
  | nil => rw [List.sum_nil, add_zero, List.map_nil, List.foldl_nil]
  | cons x rest ih => rw [List.map_cons, List.foldl_cons, exact.add, ih, List.sum_cons, add_assoc]

/-- The lanes hold numbers, and with what is left over they keep the sum. -/
theorem Exact.fold_add (lanes : Lanes K) (xs : List K) :
    ∃ (last : Lanes K) (rest : List K),
      Lanes.fold (· + ·) ⟨num lanes.first, num lanes.second, num lanes.third, num lanes.fourth⟩
        (xs.map num) =
        (⟨num last.first, num last.second, num last.third, num last.fourth⟩, rest.map num) ∧
      last.first + last.second + (last.third + last.fourth) + rest.sum =
        lanes.first + lanes.second + (lanes.third + lanes.fourth) + xs.sum := by
  induction lanes, xs using Lanes.fold.induct (fun x y : K => x + y) with
  | case1 lanes a b c d rest ih =>
      obtain ⟨last, left, folded, same⟩ := ih
      refine ⟨last, left, ?_, ?_⟩
      · simp only [List.map_cons, Lanes.fold, exact.add]
        exact folded
      · rw [same]
        simp only [List.sum_cons]
        abel
  | case2 lanes rest short =>
      refine ⟨lanes, rest, ?_, rfl⟩
      rcases rest with _ | ⟨a, _ | ⟨b, _ | ⟨c, _ | ⟨d, more⟩⟩⟩⟩
      case cons.cons.cons.cons => exact absurd rfl (short a b c d more)
      all_goals rfl

theorem Exact.sum (xs : List K) : Window.sum (xs.map num) = num xs.sum := by
  obtain ⟨last, rest, folded, same⟩ := exact.fold_add (Lanes.splat 0) xs
  have zeros : (Lanes.splat 0 : Lanes α) = ⟨num 0, num 0, num 0, num 0⟩ := by
    rw [← exact.zero]
    rfl
  unfold Window.sum
  rw [zeros]
  simp only [Lanes.splat] at folded same
  rw [folded]
  simp only [exact.add, exact.foldl_add]
  rw [same]
  simp only [add_zero, zero_add]

theorem Exact.dot_numbers (xs ys : List K) :
    Window.dot (xs.map num) (ys.map num) = num (List.zipWith (· * ·) xs ys).sum := by
  have products : List.zipWith (· * ·) (xs.map num) (ys.map num) =
      (List.zipWith (· * ·) xs ys).map num := by
    simp only [List.zipWith_map, List.map_zipWith, exact.mul]
  rw [Window.dot, products, exact.sum]

theorem Exact.runningSum (xs : List K) : Filter.runningSum (xs.map num) = num xs.sum := by
  rw [Filter.runningSum, exact.zero, exact.neg, exact.foldl_add, neg_zero, zero_add]

end Sums

/-! ## Weighted sums of points -/

/-- The sum of points with a weight for each of them, as far as both lists reach. -/
def weighted (weights : List K) (points : List (K × K)) : K × K :=
  (List.zipWith (fun k t => k • t) weights points).sum

omit [LinearOrder K] in
/-- The same point throughout takes all the weight. -/
theorem weighted_constant {weights : List K} {points : List (K × K)} {w : K × K}
    (enough : weights.length ≤ points.length) (same : ∀ t ∈ points, t = w) :
    weighted weights points = weights.sum • w := by
  unfold weighted
  induction weights generalizing points with
  | nil => rw [List.zipWith_nil_left, List.sum_nil, List.sum_nil, zero_smul]
  | cons k rest ih =>
      cases points with
      | nil => exact absurd enough (Nat.not_succ_le_zero _)
      | cons t points =>
          obtain ⟨first, others⟩ := List.forall_mem_cons.mp same
          rw [List.zipWith_cons_cons, List.sum_cons, List.sum_cons,
            ih (Nat.le_of_succ_le_succ enough) others, first, add_smul]

section Weights

variable {num : K → α} (exact : Exact num) (φ : K × K →ₗ[K] K)
include exact

theorem Exact.sum_reading (points : List (K × K)) :
    Window.sum (points.map (reading num φ)) = reading num φ points.sum := by
  have numbers : points.map (reading num φ) = (points.map φ).map num := by
    rw [List.map_map]
    rfl
  rw [numbers, exact.sum, reading, map_list_sum]

theorem Exact.runningSum_reading (points : List (K × K)) :
    Filter.runningSum (points.map (reading num φ)) = reading num φ points.sum := by
  have numbers : points.map (reading num φ) = (points.map φ).map num := by
    rw [List.map_map]
    rfl
  rw [numbers, exact.runningSum, reading, map_list_sum]

theorem Exact.zipWith_reading (weights : List K) (points : List (K × K)) :
    List.zipWith (· * ·) (weights.map num) (points.map (reading num φ)) =
      (List.zipWith (fun k t => k • t) weights points).map (reading num φ) := by
  simp only [List.zipWith_map, List.map_zipWith, exact.mul_reading]

theorem Exact.dot_reading (weights : List K) (points : List (K × K)) :
    dot (points.map (reading num φ)) (weights.map num) =
      reading num φ (weighted weights points) := by
  have swapped : List.zipWith (· * ·) (points.map (reading num φ)) (weights.map num) =
      (List.zipWith (fun k t => k • t) weights points).map (reading num φ) := by
    rw [List.zipWith_comm, List.map_zipWith, List.zipWith_map]
    simp only [exact.reading_mul]
  rw [dot, swapped, exact.sum_reading, weighted]

end Weights

/-! ## Windows -/

namespace Window.Kernel

theorem length_binomialFrom (w : α) (k left : Nat) : (binomialFrom w k left).length = left := by
  induction left generalizing w k with
  | zero => rfl
  | succ left ih => rw [binomialFrom, List.length_cons, ih]

theorem length_weights (k : Kernel) (length : Nat) :
    (k.weights length : List α).length = length := by
  cases k with
  | uniform => exact List.length_replicate
  | linear | triangular | sine => rw [weights, List.length_map, List.length_range]
  | binomial => exact length_binomialFrom 1 0 length

end Window.Kernel

omit [Scalar α] [LinearOrder K] in
/-- An average of every window is linear if it is so on each window. -/
theorem HasGain.rolling {num : K → α} {g : List α → α} {period : Nat} (positive : 0 < period)
    (each : ∀ window : List (K × K), window ≠ [] → ∃ s,
      (∀ φ, g (window.map (reading num φ)) = reading num φ s) ∧
        ∀ w, (∀ t ∈ window, t = w) → s = w) :
    HasGain num 1 fun data => Window.rolling g data period := by
  choose! average read constant using each
  intro points
  refine ⟨Window.rolling average points period, ?_, ?_, ?_⟩
  · exact length_rolling _ _ _
  · intro φ
    simp only [Window.rolling, List.map_map, List.length_map]
    refine List.map_congr_left fun i member => ?_
    rw [trailing_map]
    exact read _ (trailing_ne_nil (List.mem_range.mp member) positive) φ
  · intro w _ same s member
    obtain ⟨i, inside, rfl⟩ := List.mem_map.mp member
    rw [one_smul]
    refine constant _ (trailing_ne_nil (List.mem_range.mp inside) positive) w fun t seen => ?_
    exact same t (List.mem_of_mem_drop (List.mem_of_mem_take seen))

variable [IsStrictOrderedRing K] {num : K → α} (exact : Exact num)
include exact

theorem HasGain.rollingMean {period : Nat} (positive : 0 < period) :
    HasGain num 1 fun data => Window.rollingMean data period := by
  refine .rolling positive fun window nonempty => ?_
  have count : (window.length : K) ≠ 0 :=
    Nat.cast_ne_zero.mpr (List.length_pos_iff.mpr nonempty).ne'
  refine ⟨(window.length : K)⁻¹ • window.sum, ?_, ?_⟩
  · intro φ
    rw [mean, exact.sum_reading, List.length_map, exact.ofCount, exact.reading_div _ _ count]
  · intro w same
    rw [List.eq_replicate_iff.mpr ⟨rfl, same⟩, List.sum_replicate, List.length_replicate,
      ← Nat.cast_smul_eq_nsmul K, inv_smul_smul₀ count]

/-! ## Kernels -/

theorem Positive.ofCount {n : Nat} (some : 0 < n) : Positive num (Scalar.ofCount n : α) :=
  ⟨n, Nat.cast_pos.mpr some, exact.ofCount n⟩

namespace Window.Kernel

theorem positive_binomialFrom {w : α} {left : Nat} (first : 0 < left → Positive num w) (k : Nat) :
    ∀ x ∈ binomialFrom w k left, Positive num x := by
  induction left generalizing w k with
  | zero => exact fun x member => absurd member List.not_mem_nil
  | succ left ih =>
      have here := first (Nat.succ_pos left)
      refine List.forall_mem_cons.mpr ⟨here, ih (fun more => ?_) (k + 1)⟩
      -- the next weight has a positive factor above and below the line
      obtain ⟨u, above, rfl⟩ := here
      have below : (0 : K) < (k + 1 : Nat) := Nat.cast_pos.mpr (Nat.succ_pos k)
      refine ⟨u * left / (k + 1 : Nat), ?_, ?_⟩
      · have factor : (0 : K) < left := Nat.cast_pos.mpr more
        positivity
      · rw [exact.ofCount, exact.ofCount, exact.mul, exact.div _ _ below.ne']

/-- A place between the ends of a window lies between zero and half a turn. -/
theorem positive_sine (arch : SinePositive num) {i length : Nat} (inside : i < length) :
    Positive num (sin (pi * Scalar.ofCount (i + 1) / (Scalar.ofCount length + 1) : α)) := by
  obtain ⟨p, isPi, above, positive⟩ := arch
  have places : (0 : K) < length + 1 := by positivity
  have place : ((i + 1 : Nat) : K) < length + 1 := by exact_mod_cast Nat.succ_lt_succ inside
  have first : (0 : K) < (i + 1 : Nat) := Nat.cast_pos.mpr (Nat.succ_pos i)
  rw [isPi, exact.ofCount, exact.ofCount, exact.one, exact.mul, exact.add,
    exact.div _ _ places.ne']
  refine positive _ (by positivity) ?_
  rw [div_lt_iff₀ places]
  exact mul_lt_mul_of_pos_left place above

theorem positive_weights (arch : SinePositive num) (k : Kernel) (length : Nat) :
    ∀ x ∈ (k.weights length : List α), Positive num x := by
  intro x member
  cases k with
  | uniform =>
      rw [List.eq_of_mem_replicate member, exact.one]
      exact ⟨1, one_pos, rfl⟩
  | linear =>
      obtain ⟨i, inside, rfl⟩ := List.mem_map.mp member
      exact .ofCount exact (Nat.succ_pos i)
  | triangular =>
      obtain ⟨i, inside, rfl⟩ := List.mem_map.mp member
      have place : i < length := List.mem_range.mp inside
      exact .ofCount exact (by omega)
  | sine =>
      obtain ⟨i, inside, rfl⟩ := List.mem_map.mp member
      exact positive_sine exact arch (List.mem_range.mp inside)
  | binomial =>
      refine positive_binomialFrom exact (fun _ => ?_) 0 x member
      rw [exact.one]
      exact ⟨1, one_pos, rfl⟩

/-- The weights of a window are numbers above zero, and so is their sum. -/
theorem exists_weights (arch : SinePositive num) (k : Kernel) {length : Nat} (some : 0 < length) :
    ∃ weights : List K, (k.weights length : List α) = weights.map num ∧
      weights.length = length ∧ (∀ w ∈ weights, 0 < w) ∧ 0 < weights.sum := by
  obtain ⟨weights, known, above⟩ := exists_numbers (k.positive_weights exact arch length)
  have count : weights.length = length := by
    rw [← List.length_map num, ← known, k.length_weights]
  refine ⟨weights, known, count, above, List.sum_pos weights above ?_⟩
  rwa [← List.length_pos_iff, count]

end Window.Kernel

/-- The weights of every window are positive, so they can be divided by their sum. -/
theorem HasGain.weightedAverage (trig : Trigonometric num) (kernel : Kernel) {period : Nat}
    (positive : 0 < period) :
    HasGain num 1 fun data => Window.weightedAverage data kernel period := by
  refine .rolling positive fun window nonempty => ?_
  obtain ⟨weights, known, count, -, above⟩ :=
    kernel.exists_weights exact trig.halfTurn (List.length_pos_iff.mpr nonempty)
  have total : weights.sum ≠ 0 := above.ne'
  refine ⟨weights.sum⁻¹ • weighted weights window, ?_, ?_⟩
  · intro φ
    rw [Kernel.average, List.length_map, known, exact.dot_reading, exact.sum,
      exact.reading_div _ _ total]
  · intro w same
    rw [weighted_constant (Nat.le_of_eq count) same, inv_smul_smul₀ total]

end Chartist
