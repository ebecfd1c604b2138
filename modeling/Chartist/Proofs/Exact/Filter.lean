import Chartist.Filter.Kalman
import Chartist.Filter.Laguerre
import Chartist.Filter.Linear
import Chartist.Proofs.Exact.Design
import Chartist.Proofs.Exact.Window
import Mathlib.Data.Nat.Choose.Basic
import Mathlib.Tactic.FieldSimp
import Mathlib.Tactic.Module
import Mathlib.Tactic.Ring

/-!
# Filters are linear

Each filter steps through its input with a state of points, and a constant keeps the state that
it starts with. That takes an identity of the coefficients: the binomial weights of a cascade
alternate and sum to one, the weights of a low-pass design sum to one over inputs and outputs
together, and the stages of a Laguerre filter stay level.
-/

namespace Chartist

open Chartist.Filter Scalar

/-! ## The points that a linear filter holds -/

variable {K : Type} [Field K]

/-- A linear filter on points: how many of them it still passes on, and the inputs and outputs
so far, newest first. -/
structure Taps (K : Type) where
  passing : Nat
  inputs : List (K × K)
  outputs : List (K × K)

namespace Taps

def answer (forward back : List K) (v : Taps K) (t : K × K) : K × K :=
  if v.passing = 0 then weighted forward (t :: v.inputs) + weighted back v.outputs else t

def next (forward back : List K) (v : Taps K) (t : K × K) : Taps K :=
  ⟨v.passing - 1, t :: v.inputs, v.answer forward back t :: v.outputs⟩

/-- All values so far are one point, and by the time that the formula applies every weight has
a value of its own. -/
structure Settled (forward back : List K) (w : K × K) (v : Taps K) : Prop where
  inputs : ∀ t ∈ v.inputs, t = w
  outputs : ∀ t ∈ v.outputs, t = w
  reachIn : forward.length ≤ v.passing + v.inputs.length + 1
  reachOut : back.length ≤ v.passing + v.outputs.length

variable {forward back : List K} {v : Taps K} {w : K × K}

theorem Settled.answer (unit : forward.sum + back.sum = 1) (settled : Settled forward back w v) :
    v.answer forward back w = w := by
  unfold Taps.answer
  by_cases applies : v.passing = 0
  · have reachIn := settled.reachIn
    have reachOut := settled.reachOut
    rw [applies, Nat.zero_add] at reachIn reachOut
    rw [if_pos applies, weighted_constant reachIn (List.forall_mem_cons.mpr ⟨rfl, settled.inputs⟩),
      weighted_constant reachOut settled.outputs, ← add_smul, unit, one_smul]
  · exact if_neg applies

theorem Settled.next (unit : forward.sum + back.sum = 1) (settled : Settled forward back w v) :
    Settled forward back w (v.next forward back w) where
  inputs := List.forall_mem_cons.mpr ⟨rfl, settled.inputs⟩
  outputs := List.forall_mem_cons.mpr ⟨settled.answer unit, settled.outputs⟩
  reachIn := by
    have reach := settled.reachIn
    simp only [Taps.next, List.length_cons]
    omega
  reachOut := by
    have reach := settled.reachOut
    simp only [Taps.next, List.length_cons]
    omega

end Taps

/-! ## Stages of points -/

/-- The points of all stages of a cascade at one index. -/
def column (levels : List (List (K × K))) (i : Nat) : List (K × K) :=
  levels.map fun stage => stage[i]?.getD 0

namespace Filter.Cascade

/-- The weight of stage `k` of a cascade: a binomial coefficient with its sign. -/
def binomialWeight (depth k : Nat) : K := (-1) ^ (k + 1) * depth.choose k

/-- By Pascal's rule, the weights from one stage on sum to the coefficient of one row above. -/
theorem sum_binomialWeight_from (row left k : Nat) (places : left + k = row + 1) :
    ((List.range' (k + 1) left).map (binomialWeight (K := K) (row + 1))).sum =
      (-1) ^ k * row.choose k := by
  induction left generalizing k with
  | zero =>
      have beyond : row < k := by omega
      rw [List.range'_zero, List.map_nil, List.sum_nil, Nat.choose_eq_zero_of_lt beyond,
        Nat.cast_zero, mul_zero]
  | succ left ih =>
      rw [List.range'_succ, List.map_cons, List.sum_cons, ih (k + 1) (by omega), binomialWeight,
        Nat.choose_succ_succ, Nat.cast_add, pow_succ, pow_succ]
      ring

/-- The weights of a cascade sum to one. -/
theorem sum_binomialWeight {depth : Nat} (deep : 0 < depth) :
    ((List.range' 1 depth).map (binomialWeight (K := K) depth)).sum = 1 := by
  obtain ⟨row, rfl⟩ := Nat.exists_eq_succ_of_ne_zero deep.ne'
  have total := sum_binomialWeight_from (K := K) row (row + 1) 0 rfl
  rw [total, Nat.choose_zero_right, Nat.cast_one, pow_zero, mul_one]

end Filter.Cascade

namespace Filter.Laguerre

/-- The stages after one more point. -/
def nextPoint (k : K) (s : Laguerre (K × K)) (t : K × K) : Laguerre (K × K) :=
  let l0 := (1 - k) • t + k • s.l0
  let l1 := -k • l0 + s.l0 + k • s.l1
  let l2 := -k • l1 + s.l1 + k • s.l2
  let l3 := -k • l2 + s.l2 + k • s.l3
  ⟨l0, l1, l2, l3⟩

def smoothedPoint (s : Laguerre (K × K)) : K × K :=
  ((6 : Nat) : K)⁻¹ • (s.l0 + ((2 : Nat) : K) • s.l1 + ((2 : Nat) : K) • s.l2 + s.l3)

/-- Stages at one point stay there. -/
theorem nextPoint_constant (k : K) (w : K × K) : nextPoint k ⟨w, w, w, w⟩ w = ⟨w, w, w, w⟩ := by
  have level : (1 - k) • w + k • w = w := by module
  have next : -k • w + w + k • w = w := by module
  simp only [nextPoint, level, next]

theorem smoothedPoint_constant [CharZero K] (w : K × K) : smoothedPoint ⟨w, w, w, w⟩ = w := by
  have six : ((6 : Nat) : K) ≠ 0 := Nat.cast_ne_zero.mpr (Nat.succ_ne_zero 5)
  have total : w + ((2 : Nat) : K) • w + ((2 : Nat) : K) • w + w = ((6 : Nat) : K) • w := by
    push_cast
    module
  rw [smoothedPoint, total, inv_smul_smul₀ six]

end Filter.Laguerre

namespace Filter.Kalman

variable [LinearOrder K]

/-- The share of the way to a new measurement, at a variance. -/
def gain (q r variance : K) : K := (variance + q) / (variance + q + r)

section Gain

variable [IsStrictOrderedRing K] {q r v : K} (drift : 0 < q) (noise : 0 < r) (valid : 0 ≤ v)
include drift noise valid

theorem gain_pos : 0 < gain q r v := by
  unfold gain
  positivity

theorem gain_lt_one : gain q r v < 1 := by
  rw [gain, div_lt_one (by positivity)]
  exact lt_add_of_pos_right _ noise

end Gain

/-- The estimated point and its variance, after one more point. -/
def nextPoint (q r : K) (s : (K × K) × K) (t : K × K) : (K × K) × K :=
  (s.1 + gain q r s.2 • (t - s.1), (1 - gain q r s.2) * (s.2 + q))

theorem nextPoint_nonneg [IsStrictOrderedRing K] {q r : K} {s : (K × K) × K} (drift : 0 < q)
    (noise : 0 < r) (valid : 0 ≤ s.2) (t : K × K) : 0 ≤ (nextPoint q r s t).2 := by
  have predicted : 0 < s.2 + q := by positivity
  exact mul_nonneg (sub_nonneg.mpr (gain_lt_one drift noise valid).le) predicted.le

end Filter.Kalman

variable {α : Type} [Scalar α]

/-- Weights that are numbers, and sum to one over inputs and outputs together. -/
def UnitWeights (num : K → α) (f : LinearFilter α) : Prop :=
  ∃ forward back : List K, f = ⟨forward.map num, back.map num⟩ ∧ forward.sum + back.sum = 1

variable [LinearOrder K] {num : K → α} (exact : Exact num)
include exact

/-! ## Smoothing -/

/-- A constant is where it heads to already. -/
theorem HasGain.smooth (k : K) : HasGain num 1 (Filter.smooth (num k)) := by
  refine .of_first rfl (fun _ _ => rfl) (fun t points => Answers.of_step
    (g := Filter.smoothFrom (num k)) (reading num) (fun v t => v + k • (t - v))
    (fun v t => v + k • (t - v)) (fun _ => True) (fun w v => v = w) (fun _ => rfl) ?_
    (fun _ _ _ => trivial) ?_ trivial points) (fun _ => rfl)
  · intro φ v t later _
    rw [Filter.smoothFrom, approach, exact.reading_sub, exact.mul_reading, exact.reading_add]
  · rintro v w - rfl
    rw [sub_self, smul_zero, add_zero, one_smul]
    exact ⟨rfl, rfl⟩

section Fractions

variable [IsStrictOrderedRing K]

theorem Exact.emaAlpha (period : Nat) :
    (Filter.emaAlpha period : α) = num ((2 : Nat) / (period + 1)) := by
  have places : (period + 1 : K) ≠ 0 := Nat.cast_add_one_ne_zero period
  rw [Filter.emaAlpha, exact.ofCount, exact.one, exact.natLit, exact.add, exact.div _ _ places]

theorem Exact.smmaAlpha {period : Nat} (positive : 0 < period) :
    (Filter.smmaAlpha period : α) = num (1 / period) := by
  have places : (period : K) ≠ 0 := Nat.cast_ne_zero.mpr positive.ne'
  rw [Filter.smmaAlpha, exact.ofCount, exact.one, exact.div _ _ places]

theorem HasGain.ema (period : Nat) :
    HasGain num 1 (Filter.smooth (Filter.emaAlpha period) : List α → List α) := by
  rw [exact.emaAlpha]
  exact .smooth exact _

theorem HasGain.smma {period : Nat} (positive : 0 < period) :
    HasGain num 1 (Filter.smooth (Filter.smmaAlpha period) : List α → List α) := by
  rw [exact.smmaAlpha positive]
  exact .smooth exact _

end Fractions

/-! ## Cascades -/

/-- The stages are read off points, and all of them keep a constant. -/
theorem Exact.stages_reading (k : K) (depth : Nat) (points : List (K × K)) :
    ∃ levels : List (List (K × K)), levels.length = depth ∧
      (∀ φ, stages (num k) depth (points.map (reading num φ)) =
        levels.map (List.map (reading num φ))) ∧
      ∀ level ∈ levels, level.length = points.length ∧
        ∀ w, (∀ t ∈ points, t = w) → ∀ s ∈ level, s = w := by
  induction depth generalizing points with
  | zero => exact ⟨[], rfl, fun _ => rfl, fun _ member => absurd member List.not_mem_nil⟩
  | succ depth ih =>
      obtain ⟨first, length, read, constant⟩ := HasGain.smooth exact k points
      simp only [one_smul] at read constant
      obtain ⟨others, deep, reads, levels⟩ := ih first
      refine ⟨first :: others, ?_, ?_, ?_⟩
      · rw [List.length_cons, deep]
      · intro φ
        simp only [stages, read, reads, List.map_cons]
      · refine List.forall_mem_cons.mpr ⟨⟨length, fun w => constant w trivial⟩, ?_⟩
        intro level member
        obtain ⟨same, keeps⟩ := levels level member
        exact ⟨same.trans length, fun w all => keeps w (constant w trivial all)⟩

/-- Combining stages of one length weighs the points of all stages at each index. -/
theorem Exact.combine_reading (φ : K × K →ₗ[K] K) (weights : List K)
    {levels : List (List (K × K))} {length : Nat} (some : levels ≠ [])
    (sized : ∀ level ∈ levels, level.length = length) :
    combine (levels.map (List.map (reading num φ))) (weights.map num) =
      ((List.range length).map fun i => weighted weights (column levels i)).map
        (reading num φ) := by
  have sizes : ((levels.map (List.map (reading num φ))).head?.map List.length).getD 0 =
      length := by
    cases levels with
    | nil => exact absurd rfl some
    | cons first others =>
        rw [← sized first (List.mem_cons_self ..)]
        exact List.length_map _
  simp only [combine, sizes, List.map_map]
  refine List.map_congr_left fun i member => ?_
  have values : (levels.map (List.map (reading num φ))).map (fun stage => stage[i]?.getD nan) =
      (column levels i).map (reading num φ) := by
    unfold column
    rw [List.map_map, List.map_map]
    refine List.map_congr_left fun stage here => ?_
    have inside : i < stage.length := sized stage here ▸ List.mem_range.mp member
    simp only [Function.comp_apply, List.getElem?_map, List.getElem?_eq_getElem inside,
      Option.map_some, Option.getD_some]
  rw [← List.zipWith_map_left (f := fun stage : List α => stage[i]?.getD nan)
    (g := fun x w => w * x), values, List.zipWith_comm, exact.zipWith_reading,
    exact.runningSum_reading]
  rfl

theorem HasGain.combine_stages (k : K) {depth : Nat} (deep : 0 < depth) {weights : List K}
    (count : weights.length = depth) :
    HasGain num weights.sum fun data =>
      combine (stages (num k) depth data) (weights.map num) := by
  intro points
  obtain ⟨levels, length, read, level⟩ := exact.stages_reading k depth points
  have some : levels ≠ [] := by
    rw [← List.length_pos_iff, length]
    exact deep
  have sized : ∀ stage ∈ levels, stage.length = points.length := fun stage member =>
    (level stage member).1
  refine ⟨(List.range points.length).map fun i => weighted weights (column levels i), ?_, ?_, ?_⟩
  · rw [List.length_map, List.length_range]
  · intro φ
    simp only [read, exact.combine_reading φ weights some sized]
  · intro w _ same s member
    obtain ⟨i, inside, rfl⟩ := List.mem_map.mp member
    refine weighted_constant ?_ ?_
    · rw [column, List.length_map, length, count]
    · refine List.forall_mem_map.mpr fun stage here => ?_
      obtain ⟨long, keeps⟩ := level stage here
      have found := List.getElem?_eq_getElem (long.symm ▸ List.mem_range.mp inside)
      rw [found, Option.getD_some]
      exact keeps w same _ (List.getElem_mem _)

section Weights

variable [IsStrictOrderedRing K]

omit [IsStrictOrderedRing K] in
/-- Every second weight has a minus sign. -/
theorem Exact.signed_weight (k : Nat) (x : K) :
    (if (k + 1) % 2 = 1 then num x else -num x) = num ((-1) ^ (k + 2) * x) := by
  rcases Nat.even_or_odd k with even | odd
  · have first : (k + 1) % 2 = 1 := Nat.odd_iff.mp even.add_one
    rw [if_pos first, (even.add even_two).neg_one_pow, one_mul]
  · have second : (k + 1) % 2 ≠ 1 := by
      rw [Nat.even_iff.mp odd.add_one]
      exact zero_ne_one
    rw [if_neg second, exact.neg, (odd.add_even even_two).neg_one_pow, neg_one_mul]

/-- The weights from one stage on are the binomial coefficients of the depth with their signs. -/
theorem Exact.cascade_weightsFrom (depth left k : Nat) (places : left + k = depth) :
    Cascade.weightsFrom (num (depth.choose k)) (k + 1) left =
      ((List.range' (k + 1) left).map (Cascade.binomialWeight depth)).map num := by
  induction left generalizing k with
  | zero => rfl
  | succ left ih =>
      have later := ih (k + 1) (by omega)
      have below : ((k + 1 : Nat) : K) ≠ 0 := Nat.cast_ne_zero.mpr (Nat.succ_ne_zero k)
      have next : (depth.choose k : K) * (left + 1 : Nat) / (k + 1 : Nat) =
          depth.choose (k + 1) := by
        have remaining : depth - k = left + 1 := by omega
        rw [div_eq_iff below, ← Nat.cast_mul, ← Nat.cast_mul, Nat.choose_succ_right_eq, remaining]
      simp only [Cascade.weightsFrom, exact.ofCount, exact.mul, exact.div _ _ below, next, later,
        exact.signed_weight, List.range'_succ, List.map_cons, Cascade.binomialWeight]

theorem Exact.cascade_weights (c : Cascade) :
    c.weights = ((List.range' 1 c.depth).map (Cascade.binomialWeight c.depth)).map num := by
  have all := exact.cascade_weightsFrom c.depth c.depth 0 rfl
  rw [Nat.choose_zero_right, Nat.cast_one, ← exact.one] at all
  exact all

theorem HasGain.cascade {c : Cascade} (deep : 0 < c.depth) (period : Nat) :
    HasGain num 1 fun data =>
      combine (stages (Filter.emaAlpha period) c.depth data) c.weights := by
  have total := Cascade.sum_binomialWeight (K := K) deep
  rw [exact.cascade_weights, exact.emaAlpha, ← total]
  refine .combine_stages exact _ deep ?_
  rw [List.length_map, List.length_range']

end Weights

/-! ## Linear filters -/

theorem Exact.tap_reading (φ : K × K →ₗ[K] K) (weights : List K) (points : List (K × K)) :
    LinearFilter.tap (weights.map num) (points.map (reading num φ)) =
      reading num φ (weighted weights points) := by
  rw [LinearFilter.tap, exact.zipWith_reading, exact.runningSum_reading, weighted]

theorem HasGain.apply {forward back : List K} (unit : forward.sum + back.sum = 1) :
    HasGain num 1 (LinearFilter.apply ⟨forward.map num, back.map num⟩) := by
  intro points
  let f : LinearFilter α := ⟨forward.map num, back.map num⟩
  have run : Answers num 1 (Taps.Settled forward back · ⟨f.order, [], []⟩) points fun φ =>
      f.apply (points.map (reading num φ)) := by
    refine Answers.of_step (g := fun s => f.applyFrom s.1 s.2.1 s.2.2)
      (fun φ v => (v.passing, v.inputs.map (reading num φ), v.outputs.map (reading num φ)))
      (Taps.answer forward back) (Taps.next forward back) (fun _ => True)
      (Taps.Settled forward back) (fun s => ?_) ?_ (fun _ _ _ => trivial) ?_ trivial points
    · cases s.1 <;> rfl
    · rintro φ ⟨passing, inputs, outputs⟩ t later -
      cases passing with
      | zero =>
          have formula : LinearFilter.tap (forward.map num) ((t :: inputs).map (reading num φ)) +
              LinearFilter.tap (back.map num) (outputs.map (reading num φ)) =
              reading num φ (weighted forward (t :: inputs) + weighted back outputs) := by
            rw [exact.tap_reading, exact.tap_reading, exact.reading_add]
          simp only [LinearFilter.applyFrom, Taps.next, Taps.answer, if_true, f, List.map_cons,
            ← formula]
      | succ passing => rfl
    · intro v w _ settled
      rw [settled.answer unit, one_smul]
      exact ⟨rfl, settled.next unit⟩
  refine run.mono fun w _ _ => ⟨?_, ?_, ?_, ?_⟩
  · exact fun t member => absurd member List.not_mem_nil
  · exact fun t member => absurd member List.not_mem_nil
  · -- the order leaves room for all weights
    simp only [f, LinearFilter.order, List.length_map, List.length_nil]
    omega
  · simp only [f, LinearFilter.order, List.length_map, List.length_nil]
    omega

theorem UnitWeights.filter [IsStrictOrderedRing K] (trig : Trigonometric num)
    (design : PoleDesign) {period : Nat} (positive : 0 < period) :
    UnitWeights num (design.filter period) := by
  obtain ⟨p, isPi, -⟩ := trig.halfTurn
  choose e isExp using fun x => (exact.isFinite _).mp (trig.exp x)
  choose c isCos using fun x => (exact.isFinite _).mp (trig.cos x)
  exact ⟨_, _, design.filter_numbers exact isPi isExp isCos positive, design.sum_weights _ _⟩

theorem HasGain.pole [IsStrictOrderedRing K] (trig : Trigonometric num) (design : PoleDesign)
    {period : Nat} (positive : 0 < period) : HasGain num 1 (design.filter period).apply := by
  obtain ⟨forward, back, known, unit⟩ := UnitWeights.filter exact trig design positive
  rw [known]
  exact .apply exact unit

/-! ## The Laguerre filter -/

section Laguerre

theorem Exact.laguerre_next (k : K) (φ : K × K →ₗ[K] K) (s : Laguerre (K × K)) (t : K × K) :
    Laguerre.next (num k) ⟨reading num φ s.l0, reading num φ s.l1, reading num φ s.l2,
      reading num φ s.l3⟩ (reading num φ t) =
      ⟨reading num φ (s.nextPoint k t).l0, reading num φ (s.nextPoint k t).l1,
        reading num φ (s.nextPoint k t).l2, reading num φ (s.nextPoint k t).l3⟩ := by
  simp only [Laguerre.next, Laguerre.nextPoint, exact.one, exact.sub, exact.neg, exact.mul_reading,
    exact.reading_add]

variable [IsStrictOrderedRing K]

theorem Exact.laguerre_filter (φ : K × K →ₗ[K] K) (s : Laguerre (K × K)) :
    Laguerre.filter ⟨reading num φ s.l0, reading num φ s.l1, reading num φ s.l2,
      reading num φ s.l3⟩ = reading num φ s.smoothedPoint := by
  have six : ((6 : Nat) : K) ≠ 0 := Nat.cast_ne_zero.mpr (Nat.succ_ne_zero 5)
  simp only [Laguerre.filter, Laguerre.smoothedPoint, exact.natLit 2, exact.natLit 6,
    exact.mul_reading, exact.reading_add, exact.reading_div _ _ six]

/-- All stages start at the first value, and a constant keeps them level. -/
theorem HasGain.laguerre (k : K) :
    HasGain num 1 fun data => (Laguerre.pass (num k) data).map Laguerre.filter := by
  intro points
  cases points with
  | nil => exact .nil fun _ => rfl
  | cons first rest =>
      let level (w : K × K) : Laguerre (K × K) := ⟨w, w, w, w⟩
      have run : Answers num 1 (fun w => level first = level w) (first :: rest) fun φ =>
          (Laguerre.pass (num k) ((first :: rest).map (reading num φ))).map Laguerre.filter := by
        refine Answers.of_step
          (g := fun s xs => (Laguerre.passFrom (num k) s xs).map Laguerre.filter)
          (fun φ s => ⟨reading num φ s.l0, reading num φ s.l1, reading num φ s.l2,
            reading num φ s.l3⟩)
          (fun s t => (s.nextPoint k t).smoothedPoint) (Laguerre.nextPoint k) (fun _ => True)
          (fun w s => s = level w) (fun _ => rfl) ?_ (fun _ _ _ => trivial) ?_ trivial
          (first :: rest)
        · intro φ s t later _
          simp only [Laguerre.passFrom, List.map_cons, exact.laguerre_next, exact.laguerre_filter]
        · rintro s w - rfl
          rw [Laguerre.nextPoint_constant, Laguerre.smoothedPoint_constant, one_smul]
          exact ⟨rfl, rfl⟩
      refine run.mono fun w _ same => ?_
      rw [same first (List.mem_cons_self ..)]

end Laguerre

/-! ## The Kalman filter -/

section Kalman

variable [IsStrictOrderedRing K]

/-- The gain depends on the variances alone, which stay numbers that are not negative. -/
theorem HasGain.kalman {q r : K} (drift : 0 < q) (noise : 0 < r) :
    HasGain num 1 (Kalman.levels (num q) (num r)) := by
  have later (t : K × K) (points : List (K × K)) :
      Answers num 1 (fun w => t = w) points fun φ =>
        Kalman.levelsFrom (num q) (num r) ⟨reading num φ t, 1⟩
          (points.map (reading num φ)) := by
    rw [exact.one]
    refine Answers.of_step (g := Kalman.levelsFrom (num q) (num r))
      (fun φ s => ⟨reading num φ s.1, num s.2⟩) (fun s t => (Kalman.nextPoint q r s t).1)
      (Kalman.nextPoint q r) (fun s => 0 ≤ s.2) (fun w s => s.1 = w) (fun _ => rfl) ?_ ?_ ?_
      (v := (t, 1)) zero_le_one points
    · intro φ s t later valid
      have total : s.2 + q + r ≠ 0 := by positivity
      simp only [Kalman.levelsFrom, Kalman.next, Kalman.nextPoint, Kalman.gain, exact.add,
        exact.div _ _ total, exact.reading_sub, exact.mul_reading, exact.reading_add, exact.one,
        exact.sub, exact.mul]
    · intro s t valid
      exact Kalman.nextPoint_nonneg drift noise valid t
    · intro s w _ settled
      simp only [Kalman.nextPoint, settled, sub_self, smul_zero, add_zero, one_smul, and_self]
  exact .of_first rfl (fun _ _ => rfl) later fun _ => rfl

end Kalman

end Chartist
