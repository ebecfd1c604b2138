import Chartist.Proofs.Exact.Filter
import Chartist.Proofs.Ratio
import Mathlib.Algebra.BigOperators.Pi
import Mathlib.Algebra.Module.LinearMap.End
import Mathlib.Data.Nat.Choose.Sum

/-!
# What a cascade leaves out

Smoothing is a linear operator on sequences (`smoothing`), the stages of a cascade are its powers,
and what smoothing leaves of a series, its residual, is the identity less the operator. The
alternating binomial weights of a cascade are those of the binomial theorem, so a cascade of some
depth is the series less its residual taken as many times (`cascade_complements`).
-/

namespace Chartist

open Chartist.Filter Scalar

/-- What smoothing leaves of a series. -/
def residual {α : Type} [Scalar α] (alpha : α) (data : List α) : List α :=
  List.zipWith (· - ·) data (smooth alpha data)

/-! ## Smoothing as an operator -/

variable {K : Type} [Field K]

/-- The output of smoothing at each index of a sequence. -/
def smoothed (k : K) (x : ℕ → K) : ℕ → K
  | 0 => x 0
  | i + 1 => smoothed k x i + k * (x (i + 1) - smoothed k x i)

/-- Smoothing as an operator on sequences. -/
def smoothing (k : K) : Module.End K (ℕ → K) where
  toFun := smoothed k
  map_add' x y := by
    funext i
    induction i with
    | zero => rfl
    | succ i ih =>
        simp only [smoothed, Pi.add_apply, ih]
        ring
  map_smul' c x := by
    funext i
    induction i with
    | zero => rfl
    | succ i ih =>
        simp only [smoothed, Pi.smul_apply, smul_eq_mul, RingHom.id_apply, ih]
        ring

/-- By the binomial theorem, the weighted powers of an operator are what the powers of its residual
leave out. -/
theorem sum_binomialWeight_smul {V : Type} [AddCommGroup V] [Module K V] (E : Module.End K V)
    (depth : Nat) (x : V) :
    ∑ j ∈ Finset.range depth, Cascade.binomialWeight (K := K) depth (j + 1) • (E ^ (j + 1)) x =
      x - ((1 - E) ^ depth) x := by
  have term (m : Nat) : ((-E) ^ m * (depth.choose m : Module.End K V)) x =
      ((-1) ^ m * depth.choose m : K) • (E ^ m) x := by
    rw [← neg_one_smul K E, smul_pow, Module.End.mul_apply, Module.End.natCast_apply,
      LinearMap.smul_apply, map_nsmul, mul_smul, Nat.cast_smul_eq_nsmul]
  have power : ((1 - E) ^ depth) x =
      ∑ m ∈ Finset.range (depth + 1), ((-1) ^ m * depth.choose m : K) • (E ^ m) x := by
    have commutes : Commute (-E) 1 := Commute.one_right _
    rw [sub_eq_neg_add, commutes.add_pow, LinearMap.sum_apply]
    refine Finset.sum_congr rfl fun m _ => ?_
    rw [one_pow, mul_one, term]
  -- the first term is the series itself, and the signs of the others turn round
  rw [power, Finset.sum_range_succ', Nat.choose_zero_right, Nat.cast_one, pow_zero, pow_zero,
    one_mul, one_smul, Module.End.one_apply, sub_add_cancel_right, ← Finset.sum_neg_distrib]
  refine Finset.sum_congr rfl fun j _ => ?_
  rw [Cascade.binomialWeight, ← neg_smul, pow_succ, mul_neg_one, neg_mul]

/-! ## Series as the first values of sequences -/

/-- The values of a sequence at `count` indices from `first` on, as scalars. -/
def readout {α : Type} (num : K → α) (x : ℕ → K) (first count : Nat) : List α :=
  (List.range' first count).map fun i => num (x i)

section Readout

variable {α : Type} (num : K → α)

omit [Field K] in
theorem length_readout (x : ℕ → K) (first count : Nat) :
    (readout num x first count).length = count := by
  rw [readout, List.length_map, List.length_range']

omit [Field K] in
theorem getElem?_readout (x : ℕ → K) {i count : Nat} (inside : i < count) :
    (readout num x 0 count)[i]? = some (num (x i)) := by
  rw [readout, List.getElem?_map, List.getElem?_range' inside, Option.map_some, Nat.zero_add,
    Nat.one_mul]

/-- Every series of numbers is read off a sequence. -/
theorem readout_getD (xs : List K) :
    readout num (fun i => xs.getD i 0) 0 xs.length = xs.map num := by
  refine List.ext_getElem? fun i => ?_
  by_cases inside : i < xs.length
  · rw [getElem?_readout num _ inside, List.getElem?_map, List.getElem?_eq_getElem inside,
      List.getD_eq_getElem?_getD, List.getElem?_eq_getElem inside, Option.map_some,
      Option.getD_some]
  · rw [List.getElem?_eq_none (by rw [length_readout]; omega),
      List.getElem?_eq_none (by rw [List.length_map]; omega)]

end Readout

variable {α : Type} [Scalar α] [LinearOrder K] {num : K → α} (exact : Exact num)
include exact

theorem Exact.sub_readout (x y : ℕ → K) (count : Nat) :
    List.zipWith (· - ·) (readout num x 0 count) (readout num y 0 count) =
      readout num (x - y) 0 count := by
  rw [readout, readout, List.zipWith_map, List.zipWith_self, readout]
  refine List.map_congr_left fun i _ => ?_
  rw [exact.sub, Pi.sub_apply]

/-- What follows an output is smoothed from it. -/
theorem Exact.smoothFrom_readout (k : K) (x : ℕ → K) (first count : Nat) :
    smoothFrom (num k) (num (smoothing k x first)) (readout num x (first + 1) count) =
      readout num (smoothing k x) (first + 1) count := by
  induction count generalizing first with
  | zero => rfl
  | succ count ih =>
      have next : approach (num k) (num (smoothing k x first)) (num (x (first + 1))) =
          num (smoothing k x (first + 1)) := by
        rw [approach, exact.sub, exact.mul, exact.add]
        rfl
      have later := ih (first + 1)
      simp only [readout, List.range'_succ, List.map_cons, smoothFrom, next] at later ⊢
      rw [later]

theorem Exact.smooth_readout (k : K) (x : ℕ → K) (count : Nat) :
    smooth (num k) (readout num x 0 count) = readout num (smoothing k x) 0 count := by
  cases count with
  | zero => rfl
  | succ count =>
      show num (x 0) :: smoothFrom (num k) (num (smoothing k x 0)) (readout num x (0 + 1) count) =
        num (smoothing k x 0) :: readout num (smoothing k x) (0 + 1) count
      rw [exact.smoothFrom_readout]
      rfl

/-- The stages of a cascade are the powers of smoothing. -/
theorem Exact.stages_readout (k : K) (x : ℕ → K) (count depth : Nat) :
    stages (num k) depth (readout num x 0 count) =
      (List.range depth).map fun j => readout num ((smoothing k ^ (j + 1)) x) 0 count := by
  induction depth generalizing x with
  | zero => rfl
  | succ depth ih =>
      rw [stages, exact.smooth_readout, ih, List.range_succ_eq_map, List.map_cons, List.map_map]
      rfl

/-- Each residual takes off one more power of smoothing. -/
theorem Exact.residual_readout (k : K) (x : ℕ → K) (count depth : Nat) :
    (residual (num k))^[depth] (readout num x 0 count) =
      readout num (((1 - smoothing k) ^ depth) x) 0 count := by
  induction depth with
  | zero => rfl
  | succ depth ih =>
      rw [Function.iterate_succ_apply', ih, residual, exact.smooth_readout, exact.sub_readout,
        pow_succ', Module.End.mul_apply, LinearMap.sub_apply, Module.End.one_apply]

/-- Combining stages adds them up with their weights. -/
theorem Exact.combine_readout (y : Nat → ℕ → K) (w : Nat → K) (count : Nat) {depth : Nat}
    (deep : 0 < depth) :
    combine ((List.range depth).map fun j => readout num (y j) 0 count)
        (((List.range' 1 depth).map w).map num) =
      readout num (∑ j ∈ Finset.range depth, w (j + 1) • y j) 0 count := by
  have sizes : ((((List.range depth).map fun j => readout num (y j) 0 count).head?.map
      List.length).getD 0) = count := by
    obtain ⟨before, rfl⟩ := Nat.exists_eq_succ_of_ne_zero deep.ne'
    rw [List.range_succ_eq_map, List.map_cons, List.head?_cons, Option.map_some, length_readout,
      Option.getD_some]
  have shifted : List.range' 1 depth = (List.range depth).map (· + 1) := by
    rw [List.range'_eq_map_range]
    exact List.map_congr_left fun j _ => Nat.add_comm 1 j
  simp only [combine, sizes]
  rw [readout, ← List.range_eq_range']
  refine List.map_congr_left fun i member => ?_
  have inside : i < count := List.mem_range.mp member
  have terms : List.zipWith (fun (stage : List α) w => w * stage[i]?.getD nan)
      ((List.range depth).map fun j => readout num (y j) 0 count)
      (((List.range' 1 depth).map w).map num) =
        ((List.range depth).map fun j => w (j + 1) * y j i).map num := by
    rw [shifted, List.map_map, List.map_map, List.zipWith_map, List.zipWith_self, List.map_map]
    refine List.map_congr_left fun j _ => ?_
    simp only [getElem?_readout num _ inside, Option.getD_some, Function.comp_apply, exact.mul]
  rw [terms, exact.runningSum, Finset.sum_apply]
  rfl

variable [IsStrictOrderedRing K]

/-- A cascade of some depth is the series less its residual taken as many times. -/
theorem Exact.combine_weights (k : K) (xs : List K) {c : Cascade} (deep : 0 < c.depth) :
    combine (stages (num k) c.depth (xs.map num)) c.weights =
      List.zipWith (· - ·) (xs.map num) ((residual (num k))^[c.depth] (xs.map num)) := by
  rw [exact.cascade_weights, ← readout_getD, exact.stages_readout, exact.combine_readout _ _ _ deep,
    exact.residual_readout, exact.sub_readout, sum_binomialWeight_smul]

theorem Exact.runningSum_weights {c : Cascade} (deep : 0 < c.depth) :
    Filter.runningSum c.weights = (1 : α) := by
  rw [exact.cascade_weights, exact.runningSum, Cascade.sum_binomialWeight deep, exact.one]

/-- With exact arithmetic, a cascade of any depth is the series less its residual taken as many
times; its weights are the binomial coefficients of its depth with alternating signs, and sum to
one. Double and triple cascades are those of depth two and three. -/
theorem cascade_complements {alpha : α} (finiteAlpha : isFinite alpha = true) {data : List α}
    (finite : ∀ x ∈ data, isFinite x = true) :
    (∀ depth, 0 < depth →
      combine (stages alpha depth data) (Cascade.deep depth).weights =
        List.zipWith (· - ·) data ((residual alpha)^[depth] data) ∧
      ((Cascade.deep depth).weights : List α) =
        (List.range' 1 depth).map (fun k => num ((-1) ^ (k + 1) * depth.choose k)) ∧
      Filter.runningSum (Cascade.deep depth).weights = (1 : α)) ∧
    combine (stages alpha Cascade.double.depth data) Cascade.double.weights =
      List.zipWith (· - ·) data ((residual alpha)^[2] data) ∧
    combine (stages alpha Cascade.triple.depth data) Cascade.triple.weights =
      List.zipWith (· - ·) data ((residual alpha)^[3] data) := by
  obtain ⟨k, rfl⟩ := (exact.isFinite alpha).mp finiteAlpha
  obtain ⟨xs, rfl⟩ := exact.exists_map finite
  refine ⟨?_, ?_, ?_⟩
  · intro depth deep
    refine ⟨exact.combine_weights k xs (c := .deep depth) deep, ?_,
      exact.runningSum_weights (c := .deep depth) deep⟩
    rw [exact.cascade_weights, List.map_map]
    rfl
  · exact exact.combine_weights k xs (c := .double) Nat.two_pos
  · exact exact.combine_weights k xs (c := .triple) (Nat.succ_pos 2)

omit exact

/-- Four stages over five prices, with half of the way at each step. -/
theorem cascade_complements_ratio :
    let data : List Ratio := [.of 1, .of 4, .of 2, .of 8, .of 3]
    Exact Ratio.of ∧ isFinite (Ratio.of (1 / 2)) = true ∧ (∀ x ∈ data, isFinite x = true) ∧ 0 < 4 ∧
    ((Cascade.deep 4).weights : List Ratio) = [.of 4, .of (-6), .of 4, .of (-1)] ∧
    combine (stages (.of (1 / 2)) 4 data) (Cascade.deep 4).weights =
      [.of 1, .of (61 / 16), .of (37 / 16), .of (243 / 32), .of (29 / 8)] ∧
    combine (stages (.of (1 / 2)) 4 data) (Cascade.deep 4).weights =
      List.zipWith (· - ·) data ((residual (.of (1 / 2)))^[4] data) := by
  intro data
  have finite : ∀ x ∈ data, isFinite x = true := by decide
  have finiteAlpha : isFinite (Ratio.of (1 / 2)) = true := rfl
  obtain ⟨deep, -⟩ := cascade_complements Ratio.exact finiteAlpha finite
  exact ⟨Ratio.exact, finiteAlpha, finite, by decide, by decide +kernel, by decide +kernel,
    (deep 4 (by decide)).1⟩

end Chartist
