import Chartist.Filter.Laguerre
import Chartist.Proofs.Real
import Chartist.Proofs.Stable.Pole

/-!
# Recursive filters are stable

From a period of two on, the designs place their poles inside the unit circle and off the real line
(`PoleDesign.filter_placed`), so they damp what comes in (`PoleDesign.exists_damps`). The stages of
the Laguerre filter pass their input on, each at most stretched by `(1 + gamma) / (1 - gamma)`
(`Laguerre.Small`).
-/

namespace Chartist.Filter

open Scalar

variable {α : Type} [Scalar α] {num : ℝ → α}

/-! ## Designs -/

namespace PoleDesign

open LinearFilter

/-- From a period of two on, the exponent is negative and the angle less than half a turn. -/
theorem conjugate_of_period (design : PoleDesign) {period : Nat} (long : 2 ≤ period) :
    Conjugate (Real.exp (design.exponent Real.pi period))
      (Real.cos (design.angle Real.pi period)) := by
  have places : (2 : ℝ) ≤ period := by exact_mod_cast long
  have positive : (0 : ℝ) < period := by linarith
  have exponentNeg : design.exponent Real.pi period < 0 := by
    cases design <;> simp only [exponent, neg_div, neg_lt_zero] <;> positivity
  have anglePos : 0 < design.angle Real.pi period := by
    cases design <;> simp only [angle] <;> positivity
  have angleLt : design.angle Real.pi period < Real.pi := by
    have turn {part : ℝ} (short : part < 2) : part * Real.pi / period < Real.pi := by
      rw [div_lt_iff₀ positive]
      calc part * Real.pi < 2 * Real.pi := by gcongr
        _ ≤ Real.pi * period := by
          rw [mul_comm]
          gcongr
    cases design <;> exact turn (by norm_num)
  refine ⟨Real.exp_pos _, Real.exp_lt_one_iff.mpr exponentNeg, ?_⟩
  -- the sine is not zero, so the cosine is less than one in size
  have height := sq_pos_of_pos (Real.sin_pos_of_pos_of_lt_pi anglePos angleLt)
  have circle := Real.sin_sq_add_cos_sq (design.angle Real.pi period)
  rw [← sq_lt_one_iff_abs_lt_one]
  linarith

/-- All designs damp inputs of any size, the factor the same for all sizes. -/
theorem exists_damps (design : PoleDesign) {radius cosine gain : ℝ}
    (poles : Conjugate radius cosine) (gainNonneg : 0 ≤ gain) :
    ∃ factor, ∀ size, 0 ≤ size →
      ∃ settled, Damps (design.feedback radius cosine) gain factor size settled := by
  cases design with
  | superSmoother | butterworth2 =>
      exact ⟨_, fun size sized => ⟨_, damps_two poles gainNonneg sized⟩⟩
  | butterworth3 => exact ⟨_, fun size sized => ⟨_, damps_three poles gainNonneg sized⟩⟩

/-- The weights of a filter are those of a design for conjugate poles. -/
def Placed (num : ℝ → α) (design : PoleDesign) (f : LinearFilter α) : Prop :=
  ∃ radius cosine, Conjugate radius cosine ∧
    f = ⟨(design.feedforward radius cosine).map num, (design.feedback radius cosine).map num⟩

variable {design : PoleDesign} {f : LinearFilter α}

omit [Scalar α] in
theorem Placed.poles (placed : Placed num design f) : ∃ radius cosine,
    Conjugate radius cosine ∧ f.feedback = (design.feedback radius cosine).map num := by
  obtain ⟨radius, cosine, poles, rfl⟩ := placed
  exact ⟨radius, cosine, poles, rfl⟩

variable (exact : Exact num)
include exact

theorem Placed.checked (placed : Placed num design f) : f.checked = .ok f := by
  obtain ⟨radius, cosine, -, rfl⟩ := placed
  let forward := design.feedforward radius cosine
  let back := design.feedback radius cosine
  have finite : (forward.map num ++ back.map num).all isFinite = true := by
    rw [← List.map_append, List.all_eq_true]
    intro x member
    obtain ⟨w, -, rfl⟩ := List.mem_map.mp member
    exact exact.finite w
  have inputs : (forward.map num).isEmpty = false := by
    rw [List.isEmpty_map]
    exact List.isEmpty_eq_false_iff.mpr (design.feedforward_ne_nil radius cosine)
  simp only [forward, back] at finite inputs
  simp only [LinearFilter.checked, inputs, finite]
  rfl

theorem Placed.stable (placed : Placed num design f) :
    ∃ factor, StableBy num factor f.apply := by
  obtain ⟨radius, cosine, poles, rfl⟩ := placed
  obtain ⟨factor, damps⟩ :=
    design.exists_damps poles (sum_abs_nonneg (design.feedforward radius cosine))
  exact ⟨factor, stableBy_apply exact damps⟩

theorem filter_placed (analytic : Analytic num) (design : PoleDesign) {period : Nat}
    (long : 2 ≤ period) : Placed num design (design.filter period) :=
  ⟨_, _, design.conjugate_of_period long, design.filter_numbers exact analytic.pi analytic.exp
    analytic.cos (by omega)⟩

end PoleDesign

/-! ## The Laguerre filter -/

namespace Laguerre

/-- Each stage may be larger than the one before it by a factor. -/
structure Small (num : ℝ → α) (spread size : ℝ) (s : Laguerre α) : Prop where
  l0 : Sized num size s.l0
  l1 : Sized num (spread * size) s.l1
  l2 : Sized num (spread * (spread * size)) s.l2
  l3 : Sized num (spread * (spread * (spread * size))) s.l3

section Readings

variable {spread size : ℝ} (wide : 1 ≤ spread)
include wide

omit [Scalar α] in
/-- The state that all stages start in. -/
theorem Small.level {x : α} (sized : Sized num size x) : Small num spread size (level x) where
  l0 := sized
  l1 := sized.widen wide
  l2 := (sized.widen wide).widen wide
  l3 := ((sized.widen wide).widen wide).widen wide

/-- No stage is larger than the last one may be, and the smoothed value averages them. -/
theorem Small.readings (exact : Exact num) {s : Laguerre α} (small : Small num spread size s) :
    ∀ reading ∈ [Laguerre.l0, Laguerre.l1, Laguerre.l2, Laguerre.l3, Laguerre.filter],
      Sized num (spread ^ 3 * size) (reading s) := by
  have last : spread * (spread * (spread * size)) = spread ^ 3 * size := by ring
  have l0 := ((small.l0.widen wide).widen wide).widen wide
  have l1 := (small.l1.widen wide).widen wide
  have l2 := small.l2.widen wide
  have smoothed : Sized num (spread * (spread * (spread * size))) s.filter := by
    have total := ((l0.add exact (l1.scale exact 2)).add exact (l2.scale exact 2)).add exact
      small.l3
    have six : (0 : ℝ) < 6 := by norm_num
    rw [Laguerre.filter, exact.natLit 2, exact.natLit 6, Nat.cast_ofNat, Nat.cast_ofNat]
    refine (total.divide exact six).mono (le_of_eq ?_)
    rw [abs_two]
    ring
  rw [← last]
  simp only [List.forall_mem_cons]
  exact ⟨l0, l1, l2, small.l3, smoothed, fun reading member => absurd member List.not_mem_nil⟩

end Readings

section Stages

variable (exact : Exact num) {gamma size : ℝ} (nonneg : 0 ≤ gamma) (below : gamma < 1)
include nonneg below

theorem one_le_spread : 1 ≤ (1 + gamma) / (1 - gamma) := by
  rw [one_le_div (sub_pos.mpr below)]
  linarith

include exact

/-- A stage follows the one before it: what it keeps of itself leaves room for the rest. -/
theorem sized_follow {now before own : α} (sizedNow : Sized num size now)
    (sizedBefore : Sized num size before)
    (sizedOwn : Sized num ((1 + gamma) / (1 - gamma) * size) own) :
    Sized num ((1 + gamma) / (1 - gamma) * size)
      (-num gamma * now + before + num gamma * own) := by
  -- (1 + gamma) comes in, and gamma of what the stage may be is kept
  have damping : |gamma| = gamma := abs_of_nonneg nonneg
  have room : 1 - gamma ≠ 0 := (sub_pos.mpr below).ne'
  rw [exact.neg]
  refine (((sizedNow.scale exact (-gamma)).add exact sizedBefore).add exact
    (sizedOwn.scale exact gamma)).mono (le_of_eq ?_)
  rw [abs_neg, damping]
  field_simp
  ring

/-- The first stage is an average, and the others follow. -/
theorem Small.next {s : Laguerre α} (small : Small num ((1 + gamma) / (1 - gamma)) size s)
    {price : α} (sized : Sized num size price) :
    Small num ((1 + gamma) / (1 - gamma)) size (next (num gamma) s price) := by
  have l0 : Sized num size ((1 - num gamma) * price + num gamma * s.l0) := by
    rw [exact.one, exact.sub]
    refine ((sized.scale exact (1 - gamma)).add exact (small.l0.scale exact gamma)).mono
      (le_of_eq ?_)
    rw [abs_of_nonneg nonneg, abs_of_pos (sub_pos.mpr below)]
    ring
  have l1 := sized_follow exact nonneg below l0 small.l0 small.l1
  have l2 := sized_follow exact nonneg below l1 small.l1 small.l2
  have l3 := sized_follow exact nonneg below l2 small.l2 small.l3
  exact ⟨l0, l1, l2, l3⟩

/-- The invariant of a run. -/
theorem Small.passFrom {s : Laguerre α} (small : Small num ((1 + gamma) / (1 - gamma)) size s)
    {data : List α} (each : ∀ x ∈ data, Sized num size x) :
    (passFrom (num gamma) s data).length = data.length ∧
      ∀ t ∈ passFrom (num gamma) s data, Small num ((1 + gamma) / (1 - gamma)) size t := by
  induction data generalizing s with
  | nil => exact ⟨rfl, fun t member => absurd member List.not_mem_nil⟩
  | cons price rest ih =>
      obtain ⟨here, later⟩ := List.forall_mem_cons.mp each
      have small := small.next exact nonneg below here
      obtain ⟨length, others⟩ := ih small later
      exact ⟨congrArg Nat.succ length, List.forall_mem_cons.mpr ⟨small, others⟩⟩

/-- After each input the stages are small. -/
theorem Small.pass {data : List α} (each : ∀ x ∈ data, Sized num size x) :
    (pass (num gamma) data).length = data.length ∧
      ∀ t ∈ pass (num gamma) data, Small num ((1 + gamma) / (1 - gamma)) size t := by
  cases data with
  | nil => exact ⟨rfl, fun t member => absurd member List.not_mem_nil⟩
  | cons first rest =>
      have wide := one_le_spread nonneg below
      have start := Small.level wide (each first (List.mem_cons_self ..))
      exact start.passFrom exact nonneg below each

/-- All stages and the smoothed value are stable, by the factor of the last stage. -/
theorem stableBy_pass : ∀ reading ∈ [Laguerre.l0, Laguerre.l1, Laguerre.l2, Laguerre.l3,
      Laguerre.filter], StableBy num (((1 + gamma) / (1 - gamma)) ^ 3) fun data =>
        (pass (num gamma) data).map reading := by
  intro reading listed data size each
  have wide := one_le_spread nonneg below
  obtain ⟨length, small⟩ := Small.pass exact nonneg below each
  refine ⟨by rw [List.length_map, length], ?_⟩
  intro y member
  obtain ⟨s, state, rfl⟩ := List.mem_map.mp member
  exact (small s state).readings wide exact reading listed

end Stages

end Laguerre

/-! ## Both -/

/-- Recursive filters are stable. Over the real numbers, each design has a filter at each period
of two or more, with poles inside the unit circle and off the real line, and for each damping from
zero up to below one there are the stages of the Laguerre filter and its smoothed value. To inputs
of some size, none of them answers more than a fixed multiple of it, however long the series is. -/
theorem filters_stable (exact : Exact num) (analytic : Analytic num) :
    (∀ (design : PoleDesign) (period : Nat), 2 ≤ period →
      ∃ f : LinearFilter α, design.checkedFilter period = .ok f ∧
        (∃ radius cosine, LinearFilter.Conjugate radius cosine ∧
          f.feedback = (design.feedback radius cosine).map num) ∧
        ∃ factor, StableBy num factor f.apply) ∧
    ∀ gamma : ℝ, 0 ≤ gamma → gamma < 1 →
      ∃ factor, ∀ reading ∈ [Laguerre.l0, Laguerre.l1, Laguerre.l2, Laguerre.l3, Laguerre.filter],
        StableBy num factor fun data => (Laguerre.pass (num gamma) data).map reading := by
  refine ⟨?_, ?_⟩
  · intro design period long
    have placed := PoleDesign.filter_placed exact analytic design long
    have accepted : design.checkedFilter period = .ok (design.filter period : LinearFilter α) := by
      rw [PoleDesign.checkedFilter, decide_eq_true long, placed.checked exact]
      rfl
    exact ⟨_, accepted, placed.poles, placed.stable exact⟩
  · intro gamma nonneg below
    exact ⟨_, Laguerre.stableBy_pass exact nonneg below⟩

/-- The three-pole design at its shortest period, and the Laguerre filter damped by half. -/
theorem filters_stable_quantity :
    Exact Quantity.of ∧ Analytic Quantity.of ∧
    (∃ f, PoleDesign.butterworth3.checkedFilter 2 = .ok f ∧
      (∃ radius cosine, LinearFilter.Conjugate radius cosine ∧
        f.feedback = (PoleDesign.butterworth3.feedback radius cosine).map Quantity.of) ∧
      ∃ factor, StableBy Quantity.of factor f.apply) ∧
    ∃ factor, StableBy Quantity.of factor fun data =>
      (Laguerre.pass (.of (1 / 2)) data).map Laguerre.filter := by
  obtain ⟨designs, laguerre⟩ := filters_stable Quantity.exact Quantity.analytic
  obtain ⟨factor, stable⟩ := laguerre (1 / 2) (by norm_num) (by norm_num)
  exact ⟨Quantity.exact, Quantity.analytic, designs .butterworth3 2 le_rfl, factor,
    stable Laguerre.filter (by simp)⟩

end Chartist.Filter
