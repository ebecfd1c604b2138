import Chartist.Proofs.Exact.Design
import Chartist.Proofs.Exact.Window
import Chartist.Proofs.Stable.Basic
import Mathlib.Tactic.LinearCombination

/-!
# Low-pass filters are stable

The outputs of a filter with two conjugate poles have an energy, a quadratic form of the last two of
them. A step without input multiplies it by the square of the radius of the poles (`energy_step`),
so with inputs of bounded size it stays bounded, and the angle of the poles bounds the outputs by
it. A filter with a third, real pole is one with two poles on the differences that the third one
leaves (`ThreeCalm`).
-/

namespace Chartist.Filter.LinearFilter

open PoleDesign Scalar

/-! ## The energy of two outputs -/

/-- The energy of the last two outputs, for poles of a radius and the cosine of their angle. -/
def energy (radius cosine newer older : ℝ) : ℝ :=
  newer ^ 2 - 2 * radius * cosine * newer * older + radius ^ 2 * older ^ 2

section Energy

variable {radius cosine newer older size : ℝ}

/-- Two outputs of some size have at most the energy of twice that size. -/
theorem energy_le (nonneg : 0 ≤ radius) (inside : radius ≤ 1) (turned : cosine ^ 2 ≤ 1)
    (boundNewer : |newer| ≤ size) (boundOlder : |older| ≤ size) :
    energy radius cosine newer older ≤ (2 * size) ^ 2 := by
  have sized : 0 ≤ size := (abs_nonneg newer).trans boundNewer
  have cosineLe : |cosine| ≤ 1 := (sq_le_one_iff_abs_le_one cosine).mp turned
  have mixed : -(radius * cosine * newer * older) ≤ size ^ 2 := by
    calc -(radius * cosine * newer * older) ≤ |radius * cosine * newer * older| := neg_le_abs _
      _ = radius * |cosine| * |newer| * |older| := by
        rw [abs_mul, abs_mul, abs_mul, abs_of_nonneg nonneg]
      _ ≤ 1 * 1 * size * size := by gcongr
      _ = size ^ 2 := by ring
  have squareNewer : newer ^ 2 ≤ size ^ 2 :=
    sq_le_sq' (neg_le_of_abs_le boundNewer) (le_of_abs_le boundNewer)
  have squareOlder : radius ^ 2 * older ^ 2 ≤ size ^ 2 := by
    calc radius ^ 2 * older ^ 2 ≤ 1 ^ 2 * size ^ 2 := by
          have olderLe := sq_le_sq' (neg_le_of_abs_le boundOlder) (le_of_abs_le boundOlder)
          gcongr
      _ = size ^ 2 := by ring
  unfold energy
  linarith

/-- An output that follows two others without input has less energy by the square of the radius,
and an input adds no more than the radius takes away. -/
theorem energy_step (nonneg : 0 ≤ radius) (turned : cosine ^ 2 ≤ 1) (sized : 0 ≤ size)
    (bounded : energy radius cosine newer older ≤ size ^ 2) {input : ℝ}
    (small : |input| ≤ (1 - radius) * size) :
    energy radius cosine (2 * radius * cosine * newer - radius ^ 2 * older + input) newer ≤
      size ^ 2 := by
  -- the energy is this part squared and a multiple of the newer output squared
  let lag := cosine * newer - radius * older
  have lagLe : |lag| ≤ size := by
    refine abs_le_of_sq_le_sq (le_trans ?_ bounded) sized
    have rest : energy radius cosine newer older - lag ^ 2 = (1 - cosine ^ 2) * newer ^ 2 := by
      unfold energy lag
      ring
    have restNonneg : 0 ≤ (1 - cosine ^ 2) * newer ^ 2 :=
      mul_nonneg (sub_nonneg.mpr turned) (sq_nonneg newer)
    linarith
  have crossed : input * lag ≤ |input| * size := by
    calc input * lag ≤ |input * lag| := le_abs_self _
      _ = |input| * |lag| := abs_mul input lag
      _ ≤ |input| * size := mul_le_mul_of_nonneg_left lagLe (abs_nonneg input)
  have within : radius * size + |input| ≤ size := by linarith
  calc energy radius cosine (2 * radius * cosine * newer - radius ^ 2 * older + input) newer
      = radius ^ 2 * energy radius cosine newer older + 2 * radius * (input * lag) +
          input ^ 2 := by
        unfold energy lag
        ring
    _ ≤ radius ^ 2 * size ^ 2 + 2 * radius * (|input| * size) + |input| ^ 2 := by
        rw [sq_abs]
        gcongr
    _ = (radius * size + |input|) ^ 2 := by ring
    _ ≤ size ^ 2 := by
        have start : 0 ≤ radius * size + |input| := by positivity
        gcongr

/-- Poles that are turned away from the real line bound the newer output by the energy. -/
theorem abs_le_of_energy (turned : cosine ^ 2 < 1) (sized : 0 ≤ size)
    (bounded : energy radius cosine newer older ≤ size ^ 2) :
    |newer| ≤ size / (1 - cosine ^ 2) := by
  have angle : 0 < 1 - cosine ^ 2 := sub_pos.mpr turned
  have angleLe : 1 - cosine ^ 2 ≤ 1 := sub_le_self 1 (sq_nonneg cosine)
  -- what the energy has besides the newer output is a square
  have part : (1 - cosine ^ 2) * newer ^ 2 ≤ size ^ 2 := by
    have rest : energy radius cosine newer older - (1 - cosine ^ 2) * newer ^ 2 =
        (cosine * newer - radius * older) ^ 2 := by
      unfold energy
      ring
    have restNonneg := sq_nonneg (cosine * newer - radius * older)
    linarith
  rw [le_div_iff₀ angle]
  have scaled : (|newer| * (1 - cosine ^ 2)) ^ 2 ≤ size ^ 2 := by
    calc (|newer| * (1 - cosine ^ 2)) ^ 2 = (1 - cosine ^ 2) * ((1 - cosine ^ 2) * newer ^ 2) := by
          rw [mul_pow, sq_abs]
          ring
      _ ≤ 1 * size ^ 2 := by gcongr
      _ = size ^ 2 := one_mul _
  exact le_of_abs_le (abs_le_of_sq_le_sq scaled sized)

end Energy

/-! ## Runs of a filter -/

/-- The sum of the products of weights and values, as far as both reach. -/
def tapped (weights values : List ℝ) : ℝ := (List.zipWith (· * ·) weights values).sum

theorem sum_abs_nonneg (weights : List ℝ) : 0 ≤ (weights.map (|·|)).sum := by
  refine List.sum_nonneg fun x member => ?_
  obtain ⟨w, -, rfl⟩ := List.mem_map.mp member
  exact abs_nonneg w

theorem abs_tapped_le {size : ℝ} (sized : 0 ≤ size) (weights : List ℝ) {values : List ℝ}
    (bounded : ∀ x ∈ values, |x| ≤ size) :
    |tapped weights values| ≤ (weights.map (|·|)).sum * size := by
  induction weights generalizing values with
  | nil => simp [tapped]
  | cons w weights ih =>
      have others := sum_abs_nonneg weights
      cases values with
      | nil =>
          simp only [tapped, List.zipWith_nil_right, List.sum_nil, abs_zero, List.map_cons,
            List.sum_cons]
          positivity
      | cons x values =>
          obtain ⟨here, later⟩ := List.forall_mem_cons.mp bounded
          calc |tapped (w :: weights) (x :: values)| = |w * x + tapped weights values| := by
                simp [tapped]
            _ ≤ |w * x| + |tapped weights values| := abs_add_le _ _
            _ ≤ |w| * size + (weights.map (|·|)).sum * size := by
                rw [abs_mul]
                have rest := ih later
                gcongr
            _ = ((w :: weights).map (|·|)).sum * size := by
                rw [List.map_cons, List.sum_cons]
                ring

/-- A property of the outputs so far, newest first, that bounds the newest of them. It holds of
outputs no larger than the inputs, and a step with a weighted sum of inputs keeps it. -/
structure Damps (back : List ℝ) (gain factor size : ℝ) (settled : List ℝ → Prop) : Prop where
  atLeastOne : 1 ≤ factor
  start : ∀ outputs, back.length ≤ outputs.length → (∀ y ∈ outputs, |y| ≤ size) → settled outputs
  step : ∀ outputs input, settled outputs → |input| ≤ gain * size →
    settled ((input + tapped back outputs) :: outputs)
  bound : ∀ y outputs, settled (y :: outputs) → |y| ≤ factor * size

/-! ## Poles -/

section Poles

/-- Dividing by what the square of a part leaves of one makes larger. -/
theorem le_div_one_sub_sq {x part : ℝ} (nonneg : 0 ≤ x) (square : part ^ 2 < 1) :
    x ≤ x / (1 - part ^ 2) :=
  le_div_self nonneg (sub_pos.mpr square) (sub_le_self 1 (sq_nonneg part))

/-- Two conjugate poles of a radius, and the cosine of their angle: inside the unit circle, and off
the real line. -/
structure Conjugate (radius cosine : ℝ) : Prop where
  positive : 0 < radius
  inside : radius < 1
  turned : |cosine| < 1

variable {radius cosine gain size : ℝ}

/-- The newest two outputs have at most the energy of some size. -/
def TwoCalm (radius cosine size : ℝ) : List ℝ → Prop
  | newer :: older :: _ => energy radius cosine newer older ≤ size ^ 2
  | _ => False

/-- So have the differences that a third pole leaves of the newest three, and the newest one is
bounded. -/
def ThreeCalm (radius cosine size last : ℝ) : List ℝ → Prop
  | newer :: middle :: older :: _ =>
    energy radius cosine (newer - radius ^ 2 * middle) (middle - radius ^ 2 * older) ≤ size ^ 2 ∧
      |newer| ≤ last
  | _ => False

theorem TwoCalm.newest {newer : ℝ} {outputs : List ℝ}
    (calm : TwoCalm radius cosine size (newer :: outputs)) :
    ∃ older, energy radius cosine newer older ≤ size ^ 2 :=
  match outputs, calm with
  | older :: _, bounded => ⟨older, bounded⟩

theorem ThreeCalm.newest {last newer : ℝ} {outputs : List ℝ}
    (calm : ThreeCalm radius cosine size last (newer :: outputs)) : |newer| ≤ last :=
  match outputs, calm with
  | _ :: _ :: _, ⟨_, bounded⟩ => bounded

/-- A size at which the poles take more away than an input adds, from outputs of `start` times the
size of the inputs on. -/
noncomputable def level (start gain radius : ℝ) : ℝ := start + gain / (1 - radius)

theorem le_level (inside : radius < 1) (gainNonneg : 0 ≤ gain) (start : ℝ) :
    start ≤ level start gain radius :=
  le_add_of_nonneg_right (div_nonneg gainNonneg (sub_nonneg.mpr inside.le))

theorem gain_le_level (inside : radius < 1) (sized : 0 ≤ size) {start : ℝ}
    (startNonneg : 0 ≤ start) :
    gain * size ≤ (1 - radius) * (level start gain radius * size) := by
  have room : 0 < 1 - radius := sub_pos.mpr inside
  calc gain * size ≤ ((1 - radius) * start + gain) * size := by
        have share : 0 ≤ (1 - radius) * start := mul_nonneg room.le startNonneg
        exact mul_le_mul_of_nonneg_right (le_add_of_nonneg_left share) sized
    _ = (1 - radius) * (level start gain radius * size) := by
        unfold level
        field_simp

variable (poles : Conjugate radius cosine) (gainNonneg : 0 ≤ gain) (sized : 0 ≤ size)
include poles gainNonneg sized

theorem damps_two : Damps (twoPoles radius cosine) gain
    (level 2 gain radius / (1 - cosine ^ 2)) size
    (TwoCalm radius cosine (level 2 gain radius * size)) := by
  obtain ⟨positive, inside, angle⟩ := poles
  have nonneg := positive.le
  have turned := (sq_lt_one_iff_abs_lt_one cosine).mpr angle
  have start := le_level inside gainNonneg 2
  have levelNonneg : 0 ≤ level 2 gain radius * size := by positivity
  refine ⟨?_, fun outputs reach all => ?_, fun outputs input calm small => ?_,
    fun newer outputs calm => ?_⟩
  · exact (one_le_two.trans start).trans (le_div_one_sub_sq (zero_le_two.trans start) turned)
  · match outputs, reach, all with
    | newer :: older :: rest, _, all =>
      obtain ⟨boundNewer, boundOlder, -⟩ := by simpa only [List.forall_mem_cons] using all
      refine (energy_le nonneg inside.le turned.le boundNewer boundOlder).trans ?_
      gcongr
  · match outputs, calm with
    | newer :: older :: rest, calm =>
      have room := small.trans (gain_le_level inside sized zero_le_two)
      have next := energy_step nonneg turned.le levelNonneg calm room
      have output : input + tapped (twoPoles radius cosine) (newer :: older :: rest) =
          2 * radius * cosine * newer - radius ^ 2 * older + input := by
        simp only [tapped, twoPoles, List.zipWith_cons_cons, List.zipWith_nil_left, List.sum_cons,
          List.sum_nil]
        push_cast
        ring
      rw [output]
      exact next
  · obtain ⟨older, bounded⟩ := calm.newest
    rw [div_mul_eq_mul_div]
    exact abs_le_of_energy turned levelNonneg bounded

theorem damps_three :
    let spread := level 4 gain radius / (1 - cosine ^ 2)
    let factor := spread / (1 - radius ^ 2)
    Damps (threePoles radius cosine) gain factor size
      (ThreeCalm radius cosine (level 4 gain radius * size) (factor * size)) := by
  intro spread factor
  obtain ⟨positive, inside, angle⟩ := poles
  have nonneg := positive.le
  have turned := (sq_lt_one_iff_abs_lt_one cosine).mpr angle
  have third : 0 < 1 - radius ^ 2 := sub_pos.mpr (pow_lt_one₀ nonneg inside two_ne_zero)
  have start := le_level inside gainNonneg 4
  have levelNonneg : 0 ≤ level 4 gain radius * size := by positivity
  have atLeastOne : 1 ≤ factor := by
    have spreadLe := le_div_one_sub_sq (x := level 4 gain radius) (by linarith) turned
    have factorLe := le_div_one_sub_sq (x := spread) (by linarith) (sub_pos.mp third)
    linarith
  refine ⟨atLeastOne, fun outputs reach all => ?_, fun outputs input calm small => ?_,
    fun _ _ calm => calm.newest⟩
  · match outputs, reach, all with
    | newer :: middle :: older :: rest, _, all =>
      obtain ⟨boundNewer, boundMiddle, boundOlder, -⟩ := by
        simpa only [List.forall_mem_cons] using all
      have difference (x y : ℝ) (boundX : |x| ≤ size) (boundY : |y| ≤ size) :
          |x - radius ^ 2 * y| ≤ 2 * size := by
        calc |x - radius ^ 2 * y| ≤ |x| + |radius ^ 2 * y| := abs_sub _ _
          _ = |x| + radius ^ 2 * |y| := by rw [abs_mul, abs_of_nonneg (sq_nonneg radius)]
          _ ≤ size + 1 * size := by
            have squareLe : radius ^ 2 ≤ 1 := (sub_pos.mp third).le
            gcongr
          _ = 2 * size := by ring
      constructor
      · refine (energy_le nonneg inside.le turned.le (difference _ _ boundNewer boundMiddle)
          (difference _ _ boundMiddle boundOlder)).trans ?_
        calc (2 * (2 * size)) ^ 2 = (4 * size) ^ 2 := by ring
          _ ≤ (level 4 gain radius * size) ^ 2 := by gcongr
      · exact boundNewer.trans (le_mul_of_one_le_left sized atLeastOne)
  · match outputs, calm with
    | newer :: middle :: older :: rest, ⟨calm, last⟩ =>
      -- the difference that the third pole leaves of the new output is a step of the other two
      let next := 2 * radius * cosine * (newer - radius ^ 2 * middle) -
        radius ^ 2 * (middle - radius ^ 2 * older) + input
      have output : input + tapped (threePoles radius cosine)
          (newer :: middle :: older :: rest) = next + radius ^ 2 * newer := by
        simp only [tapped, threePoles, List.zipWith_cons_cons, List.zipWith_nil_left, List.sum_cons,
          List.sum_nil, next]
        push_cast
        ring
      have calmNext : energy radius cosine next (newer - radius ^ 2 * middle) ≤
          (level 4 gain radius * size) ^ 2 :=
        energy_step nonneg turned.le levelNonneg calm
          (small.trans (gain_le_level inside sized (by norm_num)))
      have nextLe : |next| ≤ spread * size := by
        rw [div_mul_eq_mul_div]
        exact abs_le_of_energy turned levelNonneg calmNext
      rw [output]
      refine ⟨by rwa [add_sub_cancel_right], ?_⟩
      calc |next + radius ^ 2 * newer| ≤ |next| + radius ^ 2 * |newer| := by
            refine (abs_add_le _ _).trans_eq ?_
            rw [abs_mul, abs_of_nonneg (sq_nonneg radius)]
        _ ≤ spread * size + radius ^ 2 * (factor * size) := by gcongr
        _ = factor * size := by
            unfold factor
            field_simp
            ring

end Poles

/-! ## Filters -/

variable {α : Type} [Scalar α] {num : ℝ → α} (exact : Exact num)
include exact

theorem tap_numbers (weights values : List ℝ) :
    tap (weights.map num) (values.map num) = num (tapped weights values) := by
  rw [tap, List.zipWith_map]
  simp only [exact.mul]
  rw [← List.map_zipWith, exact.runningSum, tapped]

/-- The invariant of a run: while values pass through, all outputs are inputs; once the formula
applies, the outputs are settled. -/
theorem applyFrom_sized {forward back : List ℝ} {factor size : ℝ} {settled : List ℝ → Prop}
    (sized : 0 ≤ size) (damps : Damps back (forward.map (|·|)).sum factor size settled)
    (passing : Nat) {values inputs outputs : List ℝ} (small : ∀ x ∈ values, |x| ≤ size)
    (smallBefore : ∀ x ∈ inputs, |x| ≤ size)
    (phase : (back.length ≤ passing + outputs.length ∧ ∀ y ∈ outputs, |y| ≤ size) ∨
      passing = 0 ∧ settled outputs) :
    let run := applyFrom ⟨forward.map num, back.map num⟩ passing (inputs.map num)
      (outputs.map num) (values.map num)
    run.length = values.length ∧ ∀ y ∈ run, Sized num (factor * size) y := by
  induction values generalizing passing inputs outputs with
  | nil =>
      cases passing <;> exact ⟨rfl, fun y member => absurd member List.not_mem_nil⟩
  | cons x rest ih =>
      obtain ⟨here, later⟩ := List.forall_mem_cons.mp small
      have smallNext : ∀ y ∈ x :: inputs, |y| ≤ size :=
        List.forall_mem_cons.mpr ⟨here, smallBefore⟩
      cases passing with
      | succ passing =>
          -- the value passes through, so outputs stay no larger than inputs
          obtain ⟨reach, all⟩ := phase.resolve_right fun ended => Nat.succ_ne_zero _ ended.1
          have nextPhase : back.length ≤ passing + (x :: outputs).length ∧
              ∀ y ∈ x :: outputs, |y| ≤ size := by
            refine ⟨?_, List.forall_mem_cons.mpr ⟨here, all⟩⟩
            rw [List.length_cons]
            omega
          obtain ⟨length, others⟩ := ih passing later smallNext (.inl nextPhase)
          refine ⟨congrArg Nat.succ length, List.forall_mem_cons.mpr ⟨⟨x, ?_, rfl⟩, others⟩⟩
          exact here.trans (le_mul_of_one_le_left sized damps.atLeastOne)
      | zero =>
          -- the first output of the formula finds inputs, the later ones find what has settled
          have calm : settled outputs := by
            rcases phase with ⟨reach, all⟩ | ⟨-, calm⟩
            · rw [Nat.zero_add] at reach
              exact damps.start outputs reach all
            · exact calm
          let input := tapped forward (x :: inputs)
          have next := damps.step outputs input calm (abs_tapped_le sized forward smallNext)
          obtain ⟨length, others⟩ := ih 0 later smallNext (.inr ⟨rfl, next⟩)
          have formula : tap (forward.map num) (num x :: inputs.map num) +
              tap (back.map num) (outputs.map num) = num (input + tapped back outputs) := by
            rw [← List.map_cons, tap_numbers exact, tap_numbers exact, exact.add]
          simp only [List.map_cons, applyFrom, formula]
          refine ⟨congrArg Nat.succ length, List.forall_mem_cons.mpr ⟨⟨_, ?_, rfl⟩, others⟩⟩
          exact damps.bound _ outputs next

theorem stableBy_apply {forward back : List ℝ} {factor : ℝ} (damps : ∀ size, 0 ≤ size →
      ∃ settled, Damps back (forward.map (|·|)).sum factor size settled) :
    StableBy num factor (apply ⟨forward.map num, back.map num⟩) := by
  intro data size each
  cases data with
  | nil =>
      have empty : apply ⟨forward.map num, back.map num⟩ [] = [] := by
        unfold apply
        cases (⟨forward.map num, back.map num⟩ : LinearFilter α).order <;> rfl
      rw [empty]
      exact ⟨rfl, fun y member => absurd member List.not_mem_nil⟩
  | cons first rest =>
      have sized : 0 ≤ size := (each first (List.mem_cons_self ..)).nonneg
      obtain ⟨settled, damped⟩ := damps size sized
      obtain ⟨values, known, small⟩ := exists_numbers each
      rw [known]
      let f : LinearFilter α := ⟨forward.map num, back.map num⟩
      have nothing : ∀ x ∈ ([] : List ℝ), |x| ≤ size := fun x member =>
        absurd member List.not_mem_nil
      have reach : back.length ≤ f.order + ([] : List ℝ).length := by
        rw [order, List.length_map, List.length_map, List.length_nil, Nat.add_zero]
        exact Nat.le_max_right _ _
      have run := applyFrom_sized exact sized damped f.order small nothing (.inl ⟨reach, nothing⟩)
      rw [List.length_map]
      exact run

end Chartist.Filter.LinearFilter
