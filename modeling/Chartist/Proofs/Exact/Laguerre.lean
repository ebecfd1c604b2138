import Chartist.Proofs.Exact.Progress
import Chartist.Proofs.Exact.Smoother

/-!
# The share of the upward steps between stages

The stages of a Laguerre filter are weighted sums of the prices seen, whose weights add up to one
whatever the damping is (`OnLine.nextPoint`). So a change of scale or level does to all four stages
what it does to the prices: the filter runs once over the points `(x, 1)`, and every affine image of
the series is read off the states of that run (`passFrom_readings`). The steps from each stage to
the next one add up like the changes of a window do, to a part up and a part down. A change of scale
multiplies both parts, and a reflection exchanges them. Main statement: `upward_shares`.
-/

namespace Chartist.Filter.Laguerre

open Adaptive Rsi Scalar

/-! ## Shares of changes -/

section Numbers

variable {K : Type} [Field K] [LinearOrder K]

/-- How far changes lead up, as a part of their path; zero without a path. -/
def share (cs : List K) : K := if path cs = 0 then 0 else ups cs / path cs

theorem ups_neg (cs : List K) : ups (cs.map fun c => -c) = downs cs := by
  rw [ups, downs, List.map_map]
  rfl

variable [IsStrictOrderedRing K]

theorem ups_scale {a : K} (positive : 0 < a) (cs : List K) :
    ups (cs.map (a * ·)) = a * ups cs := by
  have scaled (c : K) : rise (a * c) = a * rise c := by
    rw [rise, rise, mul_max_of_nonneg _ _ positive.le, mul_zero]
  simp only [ups, List.map_map, Function.comp_def, scaled]
  exact List.sum_map_mul_left ..

theorem path_scale {a : K} (positive : 0 < a) (cs : List K) :
    path (cs.map (a * ·)) = a * path cs := by
  simp only [path, List.map_map, Function.comp_def, abs_mul, abs_of_pos positive]
  exact List.sum_map_mul_left ..

theorem path_nonneg (cs : List K) : 0 ≤ path cs :=
  (abs_nonneg cs.sum).trans (abs_sum_le_path cs)

theorem path_eq_zero_iff (cs : List K) : path cs = 0 ↔ ∀ c ∈ cs, c = 0 := by
  have parts : path cs = 0 ↔ ups cs = 0 ∧ downs cs = 0 := by
    rw [← ups_add_downs, add_eq_zero_iff_of_nonneg (ups_nonneg cs) (downs_nonneg cs)]
  rw [parts, ups_eq_zero_iff, downs_eq_zero_iff]
  constructor
  · rintro ⟨noneUp, noneDown⟩ c member
    exact le_antisymm (not_lt.mp (noneUp c member)) (not_lt.mp (noneDown c member))
  · intro still
    constructor
    · intro c member up
      exact up.ne' (still c member)
    · intro c member down
      exact down.ne (still c member)

theorem share_range (cs : List K) : 0 ≤ share cs ∧ share cs ≤ 1 := by
  unfold share
  split
  · exact ⟨le_rfl, zero_le_one⟩
  next moved =>
    have walked : 0 < path cs := lt_of_le_of_ne (path_nonneg cs) (Ne.symm moved)
    refine ⟨div_nonneg (ups_nonneg cs) walked.le, (div_le_one walked).mpr ?_⟩
    rw [← ups_add_downs]
    exact le_add_of_nonneg_right (downs_nonneg cs)

theorem share_scale {a : K} (positive : 0 < a) (cs : List K) :
    share (cs.map (a * ·)) = share cs := by
  rw [share, share, path_scale positive, ups_scale positive]
  simp only [mul_eq_zero, positive.ne', false_or, mul_div_mul_left _ _ positive.ne']

/-- Turned round, what led down leads up. -/
theorem share_neg {cs : List K} (moved : path cs ≠ 0) :
    share (cs.map fun c => -c) = 1 - share cs := by
  have rest : downs cs = path cs - ups cs := by rw [← ups_add_downs, add_sub_cancel_left]
  rw [share, share, path_neg, if_neg moved, if_neg moved, ups_neg, rest, sub_div, div_self moved]

end Numbers

/-! ## States of points -/

section Points

variable {K : Type} [Field K]

/-- The states of points that follow a state. -/
def pointsFrom (k : K) : Laguerre (K × K) → List (K × K) → List (Laguerre (K × K))
  | _, [] => []
  | s, t :: rest => s.nextPoint k t :: pointsFrom k (s.nextPoint k t) rest

/-- The states over the points `(x, 1)`, from the first of them on. -/
def pointStates (k : K) : List K → List (Laguerre (K × K))
  | [] => []
  | first :: rest =>
    pointsFrom k ⟨(first, 1), (first, 1), (first, 1), (first, 1)⟩ ((first :: rest).map (·, 1))

/-- The second coordinate of every stage, which is the sum of its weights, is one. -/
structure OnLine (s : Laguerre (K × K)) : Prop where
  l0 : s.l0.2 = 1
  l1 : s.l1.2 = 1
  l2 : s.l2.2 = 1
  l3 : s.l3.2 = 1

theorem OnLine.nextPoint {s : Laguerre (K × K)} (line : s.OnLine) (k x : K) :
    (s.nextPoint k (x, 1)).OnLine := by
  -- each stage takes as much from its neighbour as it gives up
  constructor <;>
    simp only [Laguerre.nextPoint, Prod.snd_add, Prod.smul_snd, smul_eq_mul, line.l0, line.l1,
      line.l2, line.l3] <;> ring

theorem onLine_pointsFrom (k : K) {s : Laguerre (K × K)} (line : s.OnLine) (xs : List K) :
    ∀ t ∈ pointsFrom k s (xs.map (·, 1)), t.OnLine := by
  induction xs generalizing s with
  | nil => exact fun t member => absurd member List.not_mem_nil
  | cons x rest ih =>
      have next := line.nextPoint k x
      exact List.forall_mem_cons.mpr ⟨next, ih next⟩

theorem onLine_pointStates (k : K) (xs : List K) : ∀ s ∈ pointStates k xs, s.OnLine := by
  cases xs with
  | nil => exact fun s member => absurd member List.not_mem_nil
  | cons first rest => exact onLine_pointsFrom k ⟨rfl, rfl, rfl, rfl⟩ (first :: rest)

/-- The steps from each stage to the one before it, as a functional reads them. -/
def drops (φ : K × K →ₗ[K] K) (s : Laguerre (K × K)) : List K :=
  [φ s.l0 - φ s.l1, φ s.l1 - φ s.l2, φ s.l2 - φ s.l3]

/-- On the line, an affine map of the numbers only scales the steps. -/
theorem drops_mixing {s : Laguerre (K × K)} (line : s.OnLine) (a b : K) :
    drops (mixing a b) s = (drops (LinearMap.fst K K K) s).map (a * ·) := by
  have scaled (t u : K × K) (first : t.2 = 1) (second : u.2 = 1) :
      mixing a b t - mixing a b u = a * (t.1 - u.1) := by
    show a * t.1 + b * t.2 - (a * u.1 + b * u.2) = _
    rw [first, second]
    ring
  simp only [drops, scaled _ _ line.l0 line.l1, scaled _ _ line.l1 line.l2,
    scaled _ _ line.l2 line.l3, List.map_cons, List.map_nil, LinearMap.fst_apply]

end Points

/-! ## Readings of states -/

variable {α K : Type} [Scalar α] [Field K] [LinearOrder K]

/-- The state that a functional reads off a state of points. -/
def readStages (num : K → α) (φ : K × K →ₗ[K] K) (s : Laguerre (K × K)) : Laguerre α :=
  ⟨reading num φ s.l0, reading num φ s.l1, reading num φ s.l2, reading num φ s.l3⟩

omit [Scalar α] [LinearOrder K] in
/-- An affine image of a series is one more reading of its points. -/
theorem map_affine_num (num : K → α) (a b : K) (xs : List K) :
    (xs.map fun x => a * x + b).map num = (xs.map (·, 1)).map (reading num (mixing a b)) := by
  simp only [List.map_map]
  apply List.map_congr_left
  intro x _
  show num (a * x + b) = num (a * x + b * 1)
  rw [mul_one]

section Readings

variable {num : K → α} (exact : Exact num)
include exact

/-- Whichever functional reads the points, it reads the states off the same run. -/
theorem passFrom_readings (k : K) (φ : K × K →ₗ[K] K) (s : Laguerre (K × K))
    (points : List (K × K)) :
    passFrom (num k) (s.readStages num φ) (points.map (reading num φ)) =
      (pointsFrom k s points).map (readStages num φ) := by
  induction points generalizing s with
  | nil => rfl
  | cons t rest ih =>
      have step : next (num k) (s.readStages num φ) (reading num φ t) =
          (s.nextPoint k t).readStages num φ := exact.laguerre_next k φ s t
      rw [List.map_cons, passFrom, step, ih, pointsFrom, List.map_cons]

/-- All stages start at the first point, and so does each reading of them. -/
theorem pass_readings (k : K) (φ : K × K →ₗ[K] K) (xs : List K) :
    pass (num k) ((xs.map (·, 1)).map (reading num φ)) =
      (pointStates k xs).map (readStages num φ) := by
  cases xs with
  | nil => rfl
  | cons first rest =>
      let start : Laguerre (K × K) := ⟨(first, 1), (first, 1), (first, 1), (first, 1)⟩
      exact passFrom_readings exact k φ start ((first :: rest).map (·, 1))

variable [IsStrictOrderedRing K] (φ : K × K →ₗ[K] K) (s : Laguerre (K × K))

/-- Ties count as a step up by nothing. -/
theorem upDown_num :
    (s.readStages num φ).upDown = (num (ups (drops φ s)), num (downs (drops φ s))) := by
  have step (up down x y : K) :
      (if le (num y) (num x) then (num up + (num x - num y), num down)
        else (num up, num down + (num y - num x)) : α × α) =
      (num (up + rise (x - y)), num (down + fall (x - y))) := by
    rw [exact.le, rise, fall]
    by_cases above : y ≤ x
    · rw [if_pos (decide_eq_true above), max_eq_left (sub_nonneg.mpr above),
        max_eq_right (neg_nonpos.mpr (sub_nonneg.mpr above)), exact.sub, exact.add, add_zero]
    · have below : x - y ≤ 0 := sub_nonpos.mpr (not_le.mp above).le
      rw [if_neg (by simpa using above), max_eq_right below,
        max_eq_left (neg_nonneg.mpr below), exact.sub, exact.add, add_zero, neg_sub]
  simp only [upDown, readStages, reading, List.foldl_cons, List.foldl_nil, exact.zero, step, drops,
    ups, downs, List.map_cons, List.map_nil, List.sum_cons, List.sum_nil, zero_add, add_zero,
    add_assoc]

theorem strength_num :
    (s.readStages num φ).strength = num (share (drops φ s)) := by
  rw [strength, upDown_num exact]
  simp only [exact.add, ups_add_downs, exact.zero, exact.lt, decide_eq_true_eq, share]
  by_cases still : path (drops φ s) = 0
  · rw [if_pos still, if_neg (by rw [still]; exact lt_irrefl 0)]
  · have walked : 0 < path (drops φ s) := lt_of_le_of_ne (path_nonneg _) (Ne.symm still)
    rw [if_neg still, if_pos walked, exact.div _ _ still]

/-- Stages are at one value just where no step leads anywhere. -/
theorem level_iff : (∃ x, s.readStages num φ = level x) ↔ path (drops φ s) = 0 := by
  rw [path_eq_zero_iff]
  simp only [drops, List.forall_mem_cons, List.not_mem_nil, false_imp_iff, implies_true, and_true,
    sub_eq_zero]
  constructor
  · rintro ⟨x, same⟩
    simp only [readStages, level, reading, mk.injEq] at same
    obtain ⟨first, second, third, fourth⟩ := same
    exact ⟨exact.injective (first.trans second.symm), exact.injective (second.trans third.symm),
      exact.injective (third.trans fourth.symm)⟩
  · rintro ⟨first, second, third⟩
    refine ⟨num (φ s.l0), ?_⟩
    simp only [readStages, level, reading, first, second, third]

end Readings

/-! ## The index -/

/-- The steps between the stages of a state. Neither their sum upwards nor that downwards is below
zero, and both differ by as much as the first and the last stage do. The index is between 0 and 1:
zero where all stages are at one value, and elsewhere the part that the steps upwards have in all of
them. -/
structure Shared (s : Laguerre α) (index : α) : Prop where
  up : le 0 s.upDown.1 = true
  down : le 0 s.upDown.2 = true
  net : s.upDown.1 - s.upDown.2 = s.l0 - s.l3
  range : within 0 index 1 = true
  flat : (∃ x, s = level x) → index = 0
  steep : (¬ ∃ x, s = level x) → index = s.upDown.1 / (s.upDown.1 + s.upDown.2)

section Shares

variable [IsStrictOrderedRing K] {num : K → α} (exact : Exact num)
include exact

theorem shared_num (φ : K × K →ₗ[K] K) (s : Laguerre (K × K)) :
    Shared (s.readStages num φ) (num (share (drops φ s))) where
  up := by
    rw [upDown_num exact, exact.zero, exact.le, decide_eq_true_eq]
    exact ups_nonneg _
  down := by
    rw [upDown_num exact, exact.zero, exact.le, decide_eq_true_eq]
    exact downs_nonneg _
  net := by
    have ends : (drops φ s).sum = φ s.l0 - φ s.l3 := by
      simp only [drops, List.sum_cons, List.sum_nil]
      ring
    rw [upDown_num exact, exact.sub, ups_sub_downs, ends]
    exact (exact.sub _ _).symm
  range := by
    rw [exact.zero, exact.one, exact.within]
    exact share_range _
  flat same := by
    rw [level_iff exact] at same
    rw [share, if_pos same, exact.zero]
  steep differ := by
    rw [level_iff exact] at differ
    rw [upDown_num exact, exact.add, ups_add_downs, exact.div _ _ differ, share, if_neg differ]

/-- The index over an affine image of a series, from the states over the series itself. -/
theorem strengths_affine (k a b : K) (xs : List K) :
    (pass (num k) ((xs.map fun x => a * x + b).map num)).map strength =
      (pointStates k xs).map fun s =>
        num (share ((drops (LinearMap.fst K K K) s).map (a * ·))) := by
  rw [map_affine_num, pass_readings exact, List.map_map]
  apply List.map_congr_left
  intro s member
  rw [Function.comp_apply, strength_num exact, drops_mixing (onLine_pointStates k xs s member)]

omit [IsStrictOrderedRing K] in
theorem pass_num (k : K) (xs : List K) :
    pass (num k) (xs.map num) = (pointStates k xs).map (readStages num (LinearMap.fst K K K)) := by
  have points : xs.map num = (xs.map (·, (1 : K))).map (reading num (LinearMap.fst K K K)) := by
    rw [List.map_map]
    rfl
  rw [points, pass_readings exact]

theorem strengths_scale {a : K} (positive : 0 < a) (k b : K) (xs : List K) :
    (pass (num k) ((xs.map fun x => a * x + b).map num)).map strength =
      (pass (num k) (xs.map num)).map strength := by
  rw [strengths_affine exact, pass_num exact, List.map_map]
  simp only [share_scale positive, Function.comp_def, strength_num exact]

/-- A reflection is the affine map with the factor -1. -/
theorem strengths_reflect (k c : K) (xs : List K) :
    (pass (num k) ((xs.map (c - ·)).map num)).map strength =
      (pointStates k xs).map fun s =>
        num (share ((drops (LinearMap.fst K K K) s).map fun d => -d)) := by
  have reflected := strengths_affine exact k (-1) c xs
  simpa only [neg_one_mul, neg_add_eq_sub] using reflected

/-- Where the stages are level, they are so over the reflected series; elsewhere a reflection
exchanges both parts of the steps. -/
theorem strength_reflect (k c : K) {xs : List K} {i : Nat} {s : Laguerre α}
    (state : (pass (num k) (xs.map num))[i]? = some s) :
    let reflected := (pass (num k) ((xs.map (c - ·)).map num)).map strength
    ((∃ x, s = level x) → reflected[i]? = some 0) ∧
      ((¬ ∃ x, s = level x) → reflected[i]? = some (1 - s.strength)) := by
  intro reflected
  rw [pass_num exact, List.getElem?_map, Option.map_eq_some_iff] at state
  obtain ⟨t, point, rfl⟩ := state
  have here : reflected[i]? =
      some (num (share ((drops (LinearMap.fst K K K) t).map fun d => -d))) := by
    rw [show reflected = _ from strengths_reflect exact k c xs, List.getElem?_map, point,
      Option.map_some]
  rw [here, level_iff exact, strength_num exact]
  constructor
  · intro still
    have turned : path ((drops (LinearMap.fst K K K) t).map fun d => -d) = 0 := by
      rw [path_neg, still]
    rw [share, if_pos turned, exact.zero]
  · intro moved
    rw [share_neg moved, exact.one, exact.sub]

end Shares

/-- The share of the upward steps between the stages of a Laguerre filter, whose damping passes its
check. At every index of a finite series the steps add up as they should, and the index is the share
of those upwards (`Shared`). A change of scale and level leaves all values as they are; a reflection
subtracts from 1 those at which the stages differ, and leaves the others at zero. -/
theorem upward_shares [IsStrictOrderedRing K] {num : K → α} (exact : Exact num) {gamma : α}
    (accepted : (SeriesIndicator.laguerreRsi gamma).validate = .ok ()) {data : List α}
    (finite : ∀ x ∈ data, isFinite x = true) :
    let index := SeriesIndicator.laguerreRsi gamma
    (index.values data).length = data.length ∧
    (∀ i, i < data.length → ∃ s v, (pass gamma data)[i]? = some s ∧
      (index.values data)[i]? = some v ∧ Shared s v) ∧
    (∀ a b : α, isFinite a = true → isFinite b = true → lt 0 a = true →
      index.values (data.map fun x => a * x + b) = index.values data) ∧
    ∀ c : α, isFinite c = true → ∀ (i : Nat) (s : Laguerre α) (v : α),
      (pass gamma data)[i]? = some s → (index.values data)[i]? = some v →
      ((∃ x, s = level x) → (index.values (data.map fun x => c - x))[i]? = some 0) ∧
      ((¬ ∃ x, s = level x) → (index.values (data.map fun x => c - x))[i]? = some (1 - v)) := by
  intro index
  obtain ⟨k, rfl⟩ := exact.of_checkGamma accepted
  obtain ⟨xs, rfl⟩ := exact.exists_map finite
  have values (data : List α) : index.values data = (pass (num k) data).map strength := rfl
  refine ⟨(SeriesIndicator.causal_values accepted).length _, ?_, ?_, ?_⟩
  · intro i inside
    rw [← (causal_pass (num k)).length] at inside
    obtain ⟨s, state⟩ : ∃ s, (pass (num k) (xs.map num))[i]? = some s :=
      ⟨_, List.getElem?_eq_getElem inside⟩
    have here : (index.values (xs.map num))[i]? = some s.strength := by
      rw [values, List.getElem?_map, state, Option.map_some]
    refine ⟨s, s.strength, state, here, ?_⟩
    rw [pass_num exact, List.getElem?_map, Option.map_eq_some_iff] at state
    obtain ⟨t, -, rfl⟩ := state
    rw [strength_num exact]
    exact shared_num exact _ t
  · intro a b finiteA finiteB above
    obtain ⟨p, rfl⟩ := (exact.isFinite a).mp finiteA
    obtain ⟨q, rfl⟩ := (exact.isFinite b).mp finiteB
    rw [exact.zero, exact.lt, decide_eq_true_eq] at above
    rw [values, values, map_num (exact.affine p q), strengths_scale exact above]
  · intro c finiteC i s v state here
    obtain ⟨q, rfl⟩ := (exact.isFinite c).mp finiteC
    rw [values, List.getElem?_map, state, Option.map_some] at here
    obtain rfl := Option.some_injective _ here
    rw [values, map_num (exact.sub q)]
    exact strength_reflect exact k q state

/-- With half of the damping, prices that start level and then rise and fall: the stages are equal
on the first bar only. -/
theorem upward_shares_ratio :
    let data : List Ratio := [.of 10, .of 18, .of 10]
    let index : SeriesIndicator Ratio := .laguerreRsi (.of (1 / 2))
    let risen : Laguerre Ratio := ⟨.of 14, .of 8, .of 11, .of (19 / 2)⟩
    Exact Ratio.of ∧ index.validate = .ok () ∧ (∀ x ∈ data, isFinite x = true) ∧
    index.values data = [.of 0, .of (5 / 7), .of (1 / 2)] ∧ Shared risen (.of (5 / 7)) ∧
    index.values (data.map fun x => .of 2 * x + .of 1) = index.values data ∧
    (index.values (data.map fun x => .of 30 - x))[0]? = some 0 ∧
    (index.values (data.map fun x => .of 30 - x))[1]? = some (1 - .of (5 / 7)) := by
  intro data index risen
  have inside : (le 0 (Ratio.of (1 / 2)) && lt (Ratio.of (1 / 2)) 1) = true := by decide +kernel
  have accepted : index.validate = .ok () := if_pos inside
  have finite : ∀ x ∈ data, isFinite x = true := by decide
  have known : index.values data = [.of 0, .of (5 / 7), .of (1 / 2)] := by decide +kernel
  have states : pass (Ratio.of (1 / 2)) data =
      [level (.of 10), risen, ⟨.of 12, .of 12, .of (15 / 2), .of 12⟩] := by
    let stages (s : Laguerre Ratio) : List Ratio := [s.l0, s.l1, s.l2, s.l3]
    have told : Function.Injective stages := by
      rintro ⟨⟩ ⟨⟩ same
      simpa [stages] using same
    apply List.map_injective_iff.mpr told
    decide +kernel
  have differ : ¬ ∃ x, risen = level x := by
    rintro ⟨x, same⟩
    simp only [risen, level, mk.injEq] at same
    exact absurd (same.1.trans same.2.1.symm) (by decide)
  obtain ⟨-, shared, moved, reflected⟩ := upward_shares Ratio.exact accepted finite
  obtain ⟨s, v, state, value, here⟩ := shared 1 (by decide)
  have first := (reflected (.of 30) (by decide) 0 _ _ (congrArg (·[0]?) states)
    (congrArg (·[0]?) known)).1 ⟨_, rfl⟩
  have second := (reflected (.of 30) (by decide) 1 _ _ (congrArg (·[1]?) states)
    (congrArg (·[1]?) known)).2 differ
  obtain rfl := Option.some_injective _ ((congrArg (·[1]?) states).symm.trans state)
  obtain rfl := Option.some_injective _ ((congrArg (·[1]?) known).symm.trans value)
  exact ⟨Ratio.exact, accepted, finite, known, here,
    moved (.of 2) (.of 1) (by decide) (by decide) (by decide +kernel), first, second⟩

end Chartist.Filter.Laguerre
