import Chartist.Proofs.Exact.Filter
import Chartist.Proofs.Exact.Range

/-!
# The variance of a Kalman filter

The variance of an estimate does not read the measurements: it starts at one and goes through the
same numbers in every run (`variances`). Each step sends it to `r` times the gain, which rises with
the variance, so the first step decides whether the whole sequence rises or falls
(`monotone_gains`). The levels are then an adaptive average whose factors are the gains
(`levels_eq_smoothBy`), and stay between measurements seen. Main statement: `levels_invariant`.
-/

namespace Chartist.Filter.Kalman

open Scalar

variable {α : Type} [Scalar α]

/-! ## The states of a run -/

/-- The estimates of a run, one for each measurement. -/
def states (q r : α) : List α → List (Kalman α)
  | [] => []
  | first :: rest => rest.scanl (next q r) ⟨first, 1⟩

/-- The share of the way to a new measurement that an estimate goes, at a variance. -/
def stepGain (q r variance : α) : α := (variance + q) / (variance + q + r)

/-- The variance after `n` steps, whatever was measured. -/
def varianceAt (q r : α) : Nat → α
  | 0 => 1
  | n + 1 => (1 - stepGain q r (varianceAt q r n)) * (varianceAt q r n + q)

/-- The gain of step `n`. -/
def gainAt (q r : α) (n : Nat) : α := stepGain q r (varianceAt q r n)

/-- The factors of an average of `n` measurements, the first of which is taken as it is. -/
def factors (q r : α) : Nat → List α
  | 0 => []
  | n + 1 => 1 :: (List.range n).map (gainAt q r)

theorem map_level_scanl (q r : α) (s : Kalman α) (data : List α) :
    (data.scanl (next q r) s).map level = s.level :: levelsFrom q r s data := by
  induction data generalizing s with
  | nil => rfl
  | cons price rest ih => rw [List.scanl_cons, List.map_cons, ih, levelsFrom]

theorem levels_eq_states (q r : α) (data : List α) :
    levels q r data = (states q r data).map level := by
  cases data with
  | nil => rfl
  | cons first rest => rw [states, map_level_scanl, levels]

theorem variance_next {q r : α} {s : Kalman α} {n : Nat} (here : s.variance = varianceAt q r n)
    (price : α) : (next q r s price).variance = varianceAt q r (n + 1) := by
  rw [varianceAt, ← here]
  rfl

/-- By induction on the measurements, a run goes through the same variances from any step on. -/
theorem exists_step_from {q r : α} {s : Kalman α} {data : List α} {k n : Nat} {price : α}
    (started : s.variance = varianceAt q r k) (measured : data[n]? = some price) :
    ∃ t : Kalman α, (data.scanl (next q r) s)[n]? = some t ∧
      (data.scanl (next q r) s)[n + 1]? = some (next q r t price) ∧
      t.variance = varianceAt q r (k + n) := by
  induction data generalizing s k n with
  | nil => cases measured
  | cons first rest ih =>
      rw [List.scanl_cons]
      cases n with
      | zero =>
          cases measured
          refine ⟨s, rfl, ?_, started⟩
          rw [List.getElem?_cons_succ, List.getElem?_scanl_zero]
      | succ n =>
          obtain ⟨t, before, after, variance⟩ := ih (variance_next started first) measured
          refine ⟨t, before, after, ?_⟩
          rw [variance]
          congr 1
          omega

theorem exists_step (q r : α) {data : List α} {n : Nat} {price : α}
    (measured : data[n + 1]? = some price) :
    ∃ s : Kalman α, (states q r data)[n]? = some s ∧
      (states q r data)[n + 1]? = some (next q r s price) ∧ s.variance = varianceAt q r n := by
  cases data with
  | nil => cases measured
  | cons first rest =>
      have started : (⟨first, 1⟩ : Kalman α).variance = varianceAt q r 0 := rfl
      have later : rest[n]? = some price := measured
      obtain ⟨s, before, after, variance⟩ := exists_step_from started later
      rw [Nat.zero_add] at variance
      exact ⟨s, before, after, variance⟩

theorem levelsFrom_eq_smoothByFrom {q r : α} {s : Kalman α} {n : Nat}
    (started : s.variance = varianceAt q r n) (data : List α) :
    levelsFrom q r s data =
      smoothByFrom s.level data ((List.range' n data.length).map (gainAt q r)) := by
  induction data generalizing s n with
  | nil => rfl
  | cons price rest ih =>
      -- the gain of the step is that of its number, as the variance is
      have stepped : (next q r s price).level = approach (gainAt q r n) s.level price := by
        rw [gainAt, ← started]
        rfl
      rw [levelsFrom, ih (variance_next started price), List.length_cons, List.range'_succ,
        List.map_cons, smoothByFrom, stepped]

/-- The filter is an adaptive average whose factors are known beforehand. -/
theorem levels_eq_smoothBy (q r : α) (data : List α) :
    levels q r data = smoothBy data (factors q r data.length) := by
  cases data with
  | nil => rfl
  | cons first rest =>
      have started : (⟨first, 1⟩ : Kalman α).variance = varianceAt q r 0 := rfl
      rw [levels, levelsFrom_eq_smoothByFrom started, List.length_cons, factors, smoothBy,
        List.drop_one, List.tail_cons, List.range_eq_range']

/-! ## The variances as numbers -/

section Numbers

variable {K : Type} [Field K] [LinearOrder K]

/-- The variances of a run. -/
def variances (q r : K) : Nat → K
  | 0 => 1
  | n + 1 => (1 - gain q r (variances q r n)) * (variances q r n + q)

variable [IsStrictOrderedRing K] {q r : K} (drift : 0 < q) (noise : 0 < r)
include drift noise

/-- The variance that a step leaves is the gain times that of the noise. -/
theorem settled_eq {v : K} (valid : 0 ≤ v) :
    (1 - gain q r v) * (v + q) = r * gain q r v := by
  have total : v + q + r ≠ 0 := by positivity
  rw [gain]
  field_simp
  ring

/-- The gain rises with the variance. -/
theorem gain_le_gain {u v : K} (valid : 0 ≤ u) (le : u ≤ v) : gain q r u ≤ gain q r v := by
  have validV : 0 ≤ v := valid.trans le
  have cross : (u + q) * r ≤ (v + q) * r := mul_le_mul_of_nonneg_right (by linarith) noise.le
  rw [gain, gain, div_le_div_iff₀ (by positivity) (by positivity)]
  linarith

theorem variances_pos (n : Nat) : 0 < variances q r n := by
  induction n with
  | zero => exact one_pos
  | succ n ih =>
      rw [variances, settled_eq drift noise ih.le]
      exact mul_pos noise (gain_pos drift noise ih.le)

theorem variances_succ (n : Nat) :
    variances q r (n + 1) = r * gain q r (variances q r n) := by
  rw [variances, settled_eq drift noise (variances_pos drift noise n).le]

/-- After a step the variance is below that of the noise, whatever it was before. -/
theorem variances_succ_lt (n : Nat) : variances q r (n + 1) < r := by
  rw [variances_succ drift noise]
  exact mul_lt_of_lt_one_right noise (gain_lt_one drift noise (variances_pos drift noise n).le)

/-- A step keeps the order of two variances of a run. -/
theorem variances_succ_le {m n : Nat} (le : variances q r m ≤ variances q r n) :
    variances q r (m + 1) ≤ variances q r (n + 1) := by
  have risen := gain_le_gain drift noise (variances_pos drift noise m).le le
  rw [variances_succ drift noise, variances_succ drift noise]
  exact mul_le_mul_of_nonneg_left risen noise.le

/-- The direction of the first step is that of the whole run. -/
theorem monotone_gains :
    Monotone (fun n => gain q r (variances q r n)) ∨
      Antitone fun n => gain q r (variances q r n) := by
  have valid (n : Nat) : 0 ≤ variances q r n := (variances_pos drift noise n).le
  -- the order of the first two variances is that of every two that follow each other
  rcases le_total (variances q r 0) (variances q r 1) with up | down
  · left
    apply monotone_nat_of_le_succ
    intro n
    apply gain_le_gain drift noise (valid n)
    induction n with
    | zero => exact up
    | succ n ih => exact variances_succ_le drift noise ih
  · right
    apply antitone_nat_of_succ_le
    intro n
    apply gain_le_gain drift noise (valid (n + 1))
    induction n with
    | zero => exact down
    | succ n ih => exact variances_succ_le drift noise ih

variable {num : K → α} (exact : Exact num)
include exact

theorem stepGain_num {v : K} (valid : 0 ≤ v) :
    stepGain (num q) (num r) (num v) = num (gain q r v) := by
  have total : v + q + r ≠ 0 := by positivity
  rw [stepGain, exact.add, exact.add, exact.div _ _ total, gain]

theorem varianceAt_num (n : Nat) : varianceAt (num q) (num r) n = num (variances q r n) := by
  induction n with
  | zero => exact exact.one
  | succ n ih =>
      have valid := (variances_pos drift noise n).le
      rw [varianceAt, ih, stepGain_num drift noise exact valid, exact.one, exact.sub, exact.add,
        exact.mul, variances]

theorem gainAt_num (n : Nat) :
    gainAt (num q) (num r) n = num (gain q r (variances q r n)) := by
  rw [gainAt, varianceAt_num drift noise exact,
    stepGain_num drift noise exact (variances_pos drift noise n).le]

end Numbers

/-! ## Steps and levels -/

/-- A step of a run with a gain. It divides by something positive, goes a part of the way to the
measurement, strictly between none and all of it, and leaves a variance strictly between zero and
that of the noise. -/
structure SoundStep (q r gain price : α) (before after : Kalman α) : Prop where
  denominator : lt 0 (before.variance + q + r) = true
  share : gain = (before.variance + q) / (before.variance + q + r)
  gain_pos : lt 0 gain = true
  gain_lt_one : lt gain 1 = true
  level : after.level = approach gain before.level price
  variance_pos : lt 0 after.variance = true
  variance_lt : lt after.variance r = true

section Exact

variable {K : Type} [Field K] [LinearOrder K] [IsStrictOrderedRing K] {q r : K} (drift : 0 < q)
  (noise : 0 < r) {num : K → α} (exact : Exact num)
include drift noise exact

theorem soundStep {n : Nat} {s : Kalman α} (here : s.variance = varianceAt (num q) (num r) n)
    (price : α) : SoundStep (num q) (num r) (gainAt (num q) (num r) n) price s
      (next (num q) (num r) s price) := by
  have valid := variances_pos drift noise n
  have share : gainAt (num q) (num r) n = stepGain (num q) (num r) s.variance := by
    rw [gainAt, here]
  have stepped := variance_next here price
  rw [varianceAt_num drift noise exact] at here stepped
  constructor
  case denominator =>
    rw [here, exact.zero, exact.add, exact.add, exact.lt, decide_eq_true_eq]
    positivity
  case share => exact share
  case gain_pos =>
    rw [gainAt_num drift noise exact, exact.zero, exact.lt, decide_eq_true_eq]
    exact gain_pos drift noise valid.le
  case gain_lt_one =>
    rw [gainAt_num drift noise exact, exact.one, exact.lt, decide_eq_true_eq]
    exact gain_lt_one drift noise valid.le
  case level =>
    rw [share]
    rfl
  case variance_pos =>
    rw [stepped, exact.zero, exact.lt, decide_eq_true_eq]
    exact variances_pos drift noise (n + 1)
  case variance_lt =>
    rw [stepped, exact.lt, decide_eq_true_eq]
    exact variances_succ_lt drift noise n

theorem factors_range (n : Nat) : Factors (num 0) n 1 (factors (num q) (num r) n) := by
  cases n with
  | zero =>
      refine ⟨rfl, fun a member => absurd member List.not_mem_nil, ?_⟩
      intro i _ inside
      omega
  | succ n =>
      refine ⟨?_, ?_, ?_⟩
      · rw [factors, List.length_cons, List.length_map, List.length_range]
      · rw [factors, List.forall_mem_cons, List.forall_mem_map, exact.one]
        refine ⟨(exact.within 0 1 1).mpr ⟨zero_le_one, le_rfl⟩, ?_⟩
        intro i _
        have valid := (variances_pos drift noise i).le
        rw [gainAt_num drift noise exact, exact.within]
        exact ⟨(gain_pos drift noise valid).le, (gain_lt_one drift noise valid).le⟩
      · intro i early _
        obtain rfl : i = 0 := by omega
        rfl

end Exact

/-- The invariant of a Kalman filter whose level drifts and whose measurements have noise. The gains
are fixed by both and the number of the step, and rise or fall from the first step to the last.
Whatever was measured, each measurement after the first takes the run from a state to the next in a
sound step with the gain of its number (`SoundStep`). Where the measurements are finite, every level
lies between those seen so far. -/
theorem levels_invariant {K : Type} [Field K] [LinearOrder K] [IsStrictOrderedRing K] {num : K → α}
    (exact : Exact num) {q r : α} (drifts : isPositive q = true) (noisy : isPositive r = true) :
    ((∀ m n, m ≤ n → le (gainAt q r m) (gainAt q r n) = true) ∨
      ∀ m n, m ≤ n → le (gainAt q r n) (gainAt q r m) = true) ∧
    ∀ data : List α,
      levels q r data = (states q r data).map level ∧
      (∀ n price, data[n + 1]? = some price → ∃ s : Kalman α, (states q r data)[n]? = some s ∧
        (states q r data)[n + 1]? = some (next q r s price) ∧
        SoundStep q r (gainAt q r n) price s (next q r s price)) ∧
      ((∀ x ∈ data, isFinite x = true) → Tracks 1 data (levels q r data)) := by
  obtain ⟨q, drift, rfl⟩ := exact.isPositive.mp drifts
  obtain ⟨r, noise, rfl⟩ := exact.isPositive.mp noisy
  constructor
  · simp only [gainAt_num drift noise exact, exact.le, decide_eq_true_eq]
    rcases monotone_gains drift noise with up | down
    · left
      intro m n order
      exact up order
    · right
      intro m n order
      exact down order
  · intro data
    refine ⟨levels_eq_states _ _ data, ?_, ?_⟩
    · intro n price measured
      obtain ⟨s, before, after, variance⟩ := exists_step (num q) (num r) measured
      exact ⟨s, before, after, soundStep drift noise exact variance price⟩
    · intro finite
      rw [levels_eq_smoothBy]
      exact exact.tracks_smoothBy finite le_rfl (factors_range drift noise exact data.length)

/-- With a drift and a noise of one, the gain falls from 2/3 to 5/8; with two of each it rises. -/
theorem levels_invariant_ratio :
    let data : List Ratio := [.of 10, .of 20, .of 0]
    Exact Ratio.of ∧ isPositive (1 : Ratio) = true ∧ (∀ x ∈ data, isFinite x = true) ∧
    gainAt (1 : Ratio) 1 0 = .of (2 / 3) ∧ gainAt (1 : Ratio) 1 1 = .of (5 / 8) ∧
    levels 1 1 data = [.of 10, .of (50 / 3), .of (25 / 4)] ∧ Tracks 1 data (levels 1 1 data) ∧
    (∃ s : Kalman Ratio, (states 1 1 data)[1]? = some s ∧
      SoundStep 1 1 (gainAt 1 1 1) (.of 0) s (next 1 1 s (.of 0))) ∧
    lt (gainAt (2 : Ratio) 2 0) (gainAt 2 2 1) = true := by
  intro data
  have positive : isPositive (1 : Ratio) = true := by decide +kernel
  have finite : ∀ x ∈ data, isFinite x = true := by decide
  obtain ⟨-, runs⟩ := levels_invariant Ratio.exact positive positive
  obtain ⟨-, steps, tracks⟩ := runs data
  obtain ⟨s, before, -, sound⟩ := steps 1 (.of 0) rfl
  exact ⟨Ratio.exact, positive, finite, by decide +kernel, by decide +kernel, by decide +kernel,
    tracks finite, ⟨s, before, sound⟩, by decide +kernel⟩

end Chartist.Filter.Kalman
