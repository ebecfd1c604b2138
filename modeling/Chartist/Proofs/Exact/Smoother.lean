import Chartist.Indicator.Bundle
import Chartist.Proofs.Causal.Indicator
import Chartist.Proofs.Exact.Filter
import Chartist.Proofs.Ratio

/-!
# Linear smoothers

Every average and filter whose weights do not depend on its input is linear and leaves
constants as they are, with any parameters that it accepts, and so the lines made of
differences of two of them are linear and answer zero to constants (`smoothers_linear`).
-/

namespace Chartist

open Chartist.Filter Window Scalar

variable {α : Type} [Scalar α]

/-- The averages and filters whose weights do not depend on their input. -/
def SeriesIndicator.isSmoother : SeriesIndicator α → Bool
  | .simple _ | .exponential .. | .smoothed _ | .weighted .. | .cascade .. | .average ..
  | .pole .. | .laguerre _ | .kalman .. => true
  | _ => false

/-- One of the lines of a bundle. -/
def Bundle.line (b : Bundle α) (output : String) (data : Series α) : Series α :=
  ((b.outputs data).lookup output).getD []

variable {K : Type} [Field K] [LinearOrder K] {num : K → α} (exact : Exact num)
include exact

/-! ## Accepted parameters are numbers -/

theorem Exact.of_checkRange {name : String} {x y : α} {lo hi : K}
    (passed : checkRange name x (num lo) (num hi) = .ok y) : ∃ k, x = num k ∧ lo ≤ k ∧ k ≤ hi := by
  unfold checkRange at passed
  split at passed
  case isTrue inside => exact exact.exists_of_within inside
  case isFalse => cases passed

theorem Exact.of_checkGamma {gamma : α}
    (passed : (SeriesIndicator.checkGamma gamma : Except (StudyError α) Unit) = .ok ()) :
    ∃ k, gamma = num k := by
  unfold SeriesIndicator.checkGamma at passed
  split at passed
  case isTrue inside =>
    obtain ⟨above, below⟩ := Bool.and_eq_true_iff.mp inside
    rw [exact.zero] at above
    rw [exact.one] at below
    exact (exact.isFinite gamma).mp (exact.between 0 1 gamma above (exact.le_of_lt _ _ below))
  case isFalse => cases passed

theorem Exact.of_checkPositive {name : String} {x : α}
    (passed : SeriesIndicator.checkPositive name x = .ok ()) : Positive num x :=
  exact.isPositive.mp (require_ok passed)

/-! ## Gains of the indicators -/

variable [IsStrictOrderedRing K]

theorem HasGain.smoother (trig : Trigonometric num) {i : SeriesIndicator α}
    (smoother : i.isSmoother = true) (accepted : i.validate = .ok ()) : HasGain num 1 i.values := by
  cases i with
  | simple period =>
      obtain ⟨_, passed, -⟩ := exists_of_bind_ok accepted
      exact .rollingMean exact (checkPeriod_pos passed)
  | exponential period alpha =>
      obtain ⟨_, -, rest⟩ := exists_of_bind_ok accepted
      obtain ⟨_, passed, -⟩ := exists_of_bind_ok rest
      rw [exact.zero, exact.one] at passed
      obtain ⟨k, rfl, -⟩ := exact.of_checkRange passed
      exact .smooth exact k
  | smoothed period =>
      obtain ⟨_, passed, -⟩ := exists_of_bind_ok accepted
      exact .smma exact (checkPeriod_pos passed)
  | weighted kernel period =>
      obtain ⟨_, passed, -⟩ := exists_of_bind_ok accepted
      exact .weightedAverage exact trig kernel (checkPeriod_pos passed)
  | cascade kind period =>
      obtain ⟨_, valid, -⟩ := exists_of_bind_ok accepted
      exact .cascade exact (Cascade.depth_pos valid) period
  | average method period =>
      obtain ⟨_, passed, -⟩ := exists_of_bind_ok accepted
      have positive := checkPeriod_pos passed
      cases method with
      | simple => exact .rollingMean exact positive
      | exponential => exact .ema exact period
      | smoothed => exact .smma exact positive
      | linear => exact .weightedAverage exact trig .linear positive
  | pole design period =>
      obtain ⟨_, checked, -⟩ := exists_of_bind_ok accepted
      obtain ⟨_, passed, -⟩ := exists_of_bind_ok checked
      have long : 2 ≤ period := of_decide_eq_true (require_ok passed)
      exact .pole exact trig design (Nat.lt_of_lt_of_le Nat.two_pos long)
  | laguerre gamma =>
      obtain ⟨k, rfl⟩ := exact.of_checkGamma accepted
      exact .laguerre exact k
  | kalman processNoise measurementNoise =>
      obtain ⟨_, passed, rest⟩ := exists_of_bind_ok accepted
      obtain ⟨q, drift, rfl⟩ := exact.of_checkPositive passed
      obtain ⟨r, noise, rfl⟩ := exact.of_checkPositive rest
      exact .kalman exact drift noise
  | _ => cases smoother

/-- The lines are made of differences of averages, and differences of gains are zero. -/
theorem HasGain.macd (fast slow signal : Nat) {output : String}
    (known : output ∈ (Bundle.macd fast slow signal : Bundle α).names) :
    HasGain num 0 ((Bundle.macd fast slow signal).line output) := by
  have ema (period : Nat) :
      HasGain num 1 (SeriesIndicator.ema period : SeriesIndicator α).values := .ema exact period
  have line := (ema fast).sub exact (ema slow)
  rw [sub_self] at line
  have average := (ema signal).comp line
  rw [one_mul] at average
  have rest := line.sub exact average
  rw [sub_self] at rest
  simp only [Bundle.names, List.mem_cons, List.not_mem_nil, or_false] at known
  rcases known with rfl | rfl | rfl
  · exact line
  · exact average
  · exact rest

/-- With exact arithmetic the smoothers are linear and keep constants, and the three lines of a
convergence and divergence are linear and answer zero to constants. -/
theorem smoothers_linear (trig : Trigonometric num) :
    (∀ i : SeriesIndicator α, i.isSmoother = true → i.validate = .ok () → IsLinear id i.values) ∧
    (∀ (period : Nat) (alpha : α), isFinite alpha = true →
      IsLinear id (SeriesIndicator.exponential period alpha).values) ∧
    ∀ (fast slow signal : Nat) (output : String),
      output ∈ (Bundle.macd fast slow signal : Bundle α).names →
        IsLinear (fun _ => 0) ((Bundle.macd fast slow signal : Bundle α).line output) := by
  have keeps (c : K) : id (num c) = num (1 * c) := by rw [one_mul, id]
  refine ⟨?_, ?_, ?_⟩
  · intro i smoother accepted
    exact (HasGain.smoother exact trig smoother accepted).isLinear exact keeps
  · intro period alpha finite
    obtain ⟨k, rfl⟩ := (exact.isFinite alpha).mp finite
    exact (HasGain.smooth exact k).isLinear exact keeps
  · intro fast slow signal output known
    refine (HasGain.macd exact fast slow signal known).isLinear exact fun c => ?_
    rw [zero_mul, exact.zero]

omit exact

/-- A super smoother over two series and a blend of them, an average that overshoots, and the
histogram of a convergence and divergence over a series and over a constant. -/
theorem smoothers_linear_ratio :
    let x : Series Ratio := [.of 1, .of 4, .of 2]
    let y : Series Ratio := [.of 3, .of 0, .of 5]
    let pole : SeriesIndicator Ratio := .pole .superSmoother 2
    let overshoot : SeriesIndicator Ratio := .exponential 1 (.of (5 / 2))
    let macd : Bundle Ratio := .macd 1 3 2
    Exact Ratio.of ∧ Trigonometric Ratio.of ∧ pole.isSmoother = true ∧ pole.validate = .ok () ∧
    pole.values (blend (.of 2) (.of (-3)) x y) =
      blend (.of 2) (.of (-3)) (pole.values x) (pole.values y) ∧
    pole.values (List.replicate 5 (.of 7)) = List.replicate 5 (.of 7) ∧
    overshoot.values x = [.of 1, .of (17 / 2), .of (-31 / 4)] ∧ IsLinear id overshoot.values ∧
    macd.line "histogram" x = [.of 0, .of (1 / 2), .of (-5 / 12)] ∧
    macd.line "histogram" (List.replicate 5 (.of 7)) = List.replicate 5 0 := by
  intro x y pole overshoot macd
  have finite : ((PoleDesign.superSmoother.filter 2 : LinearFilter Ratio).feedforward ++
      (PoleDesign.superSmoother.filter 2 : LinearFilter Ratio).feedback).all isFinite = true := by
    decide +kernel
  have accepted : pole.validate = .ok () := by
    simp only [pole, SeriesIndicator.validate, PoleDesign.checkedFilter, LinearFilter.checked,
      finite]
    rfl
  have finiteX : ∀ u ∈ x, isFinite u = true := by decide
  have finiteY : ∀ v ∈ y, isFinite v = true := by decide
  obtain ⟨smoothers, averages, lines⟩ := smoothers_linear Ratio.exact Ratio.trigonometric
  have linear := smoothers pole rfl accepted
  have histogram := lines 1 3 2 "histogram" (by decide)
  exact ⟨Ratio.exact, Ratio.trigonometric, rfl, accepted,
    linear.blends (.of 2) (.of (-3)) x y rfl rfl finiteX finiteY rfl,
    linear.constants 5 (.of 7) rfl, by decide +kernel, averages 1 (.of (5 / 2)) rfl,
    by decide +kernel, histogram.constants 5 (.of 7) rfl⟩

end Chartist
