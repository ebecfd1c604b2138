import Mathlib.Algebra.BigOperators.Ring.List
import Mathlib.Algebra.Order.BigOperators.Group.List
import Mathlib.Algebra.Order.Field.Basic
import Mathlib.Tactic.FieldSimp
import Mathlib.Tactic.Linarith
import Mathlib.Tactic.Positivity
import Mathlib.Tactic.Ring

/-!
# Relative strength of numbers

The gains and the losses of a series are averaged alike: a mean over the first `period` of them,
and from there on a part `1 / period` of the way to each new one (`averaged`). The index is the
share of the gains (`strength`). Reflecting the series exchanges gains and losses, scaling it
multiplies both, and shifting it leaves both alone, so the laws of the index come from those of a
share.
-/

namespace Chartist.Rsi

variable {K : Type} [Field K]

/-! ## Averages -/

/-- The levels from a start on, each a part `k` of the way from the one before it to a value. -/
def tracked (k start : K) : List K → List K
  | [] => [start]
  | x :: rest => start :: tracked k (start + k * (x - start)) rest

/-- The mean of the first `period` values, and from there on the values smoothed by `1 / period`. -/
def averaged (period : Nat) (values : List K) : List K :=
  tracked (1 / period) ((values.take period).sum / period) (values.drop period)

theorem length_tracked (k start : K) (xs : List K) :
    (tracked k start xs).length = xs.length + 1 := by
  induction xs generalizing start with
  | nil => rfl
  | cons x rest ih => rw [tracked, List.length_cons, List.length_cons, ih]

theorem tracked_zero (k start : K) (xs : List K) : (tracked k start xs)[0]? = some start := by
  cases xs <;> rfl

theorem length_averaged (period : Nat) (values : List K) :
    (averaged period values).length = values.length - period + 1 := by
  rw [averaged, length_tracked, List.length_drop]

/-- A factor comes out of the levels. -/
theorem tracked_scale (a k start : K) (xs : List K) :
    tracked k (a * start) (xs.map (a * ·)) = (tracked k start xs).map (a * ·) := by
  induction xs generalizing start with
  | nil => rfl
  | cons x rest ih =>
      have next : a * start + k * (a * x - a * start) = a * (start + k * (x - start)) := by ring
      rw [List.map_cons, tracked, tracked, List.map_cons, next, ih]

theorem averaged_scale (a : K) (period : Nat) (values : List K) :
    averaged period (values.map (a * ·)) = (averaged period values).map (a * ·) := by
  have mean : ((values.map (a * ·)).take period).sum / period =
      a * ((values.take period).sum / period) := by
    rw [← List.map_take, List.sum_map_mul_left, List.map_id', mul_div_assoc]
  rw [averaged, mean, ← List.map_drop, tracked_scale, averaged]

/-- All of the way to each value. -/
theorem tracked_one (start : K) (xs : List K) : tracked 1 start xs = start :: xs := by
  induction xs generalizing start with
  | nil => rfl
  | cons x rest ih => rw [tracked, one_mul, add_sub_cancel, ih]

/-- An average over a period of 1 is the values themselves. -/
theorem averaged_one {values : List K} (seeded : 1 ≤ values.length) :
    averaged 1 values = values := by
  obtain ⟨first, rest, rfl⟩ := List.exists_cons_of_length_pos seeded
  rw [averaged, Nat.cast_one, div_one, div_one, tracked_one]
  exact congrArg (· :: rest) (List.sum_singleton ..)

/-- The changes between neighbours. -/
def steps (xs : List K) : List K := List.zipWith (fun old new => new - old) xs (xs.drop 1)

theorem length_steps (xs : List K) : (steps xs).length = xs.length - 1 := by
  rw [steps, List.length_zipWith, List.length_drop]
  omega

/-- What an affine map does to the changes. -/
theorem steps_affine (a b : K) (xs : List K) :
    steps (xs.map fun x => a * x + b) = (steps xs).map (a * ·) := by
  simp only [steps, ← List.map_drop, List.zipWith_map, List.map_zipWith]
  congr 1
  funext old new
  ring

/-- A reflection is the affine map with the factor -1. -/
theorem steps_reflect (c : K) (xs : List K) :
    steps (xs.map (c - ·)) = (steps xs).map (-·) := by
  have reflected := steps_affine (-1) c xs
  simpa only [neg_one_mul, neg_add_eq_sub] using reflected

/-- The changes that count at an index of the data: all up to there, except that with a period of 1
only the last one is left. -/
def remembered {β : Type} (period i : Nat) (changes : List β) : List β :=
  if period = 1 then (changes.take i).drop (i - 1) else changes.take i

theorem remembered_map {β γ : Type} (f : β → γ) (period i : Nat) (changes : List β) :
    remembered period i (changes.map f) = (remembered period i changes).map f := by
  unfold remembered
  split
  · rw [← List.map_take, List.map_drop]
  · exact List.map_take.symm

section Levels

variable [LinearOrder K] [IsStrictOrderedRing K]

theorem add_pos_iff_of_nonneg {x y : K} (first : 0 ≤ x) (second : 0 ≤ y) :
    0 < x + y ↔ 0 < x ∨ 0 < y := by
  constructor
  · intro total
    by_contra! none
    exact absurd total (not_lt.mpr (add_nonpos none.1 none.2))
  · rintro (above | above)
    · exact add_pos_of_pos_of_nonneg above second
    · exact add_pos_of_nonneg_of_pos first above

/-- A part of the way from one value to another leads to a convex combination of both. -/
theorem approach_nonneg {k level x : K} (partNonneg : 0 ≤ k) (partLeOne : k ≤ 1)
    (levelNonneg : 0 ≤ level) (valueNonneg : 0 ≤ x) : 0 ≤ level + k * (x - level) := by
  have stay := mul_nonneg (sub_nonneg.mpr partLeOne) levelNonneg
  have move := mul_nonneg partNonneg valueNonneg
  linarith

/-- Of a convex combination with two positive weights, one value above zero is enough. -/
theorem approach_pos_iff {k level x : K} (moves : 0 < k) (keeps : k < 1) (levelNonneg : 0 ≤ level)
    (valueNonneg : 0 ≤ x) : 0 < level + k * (x - level) ↔ 0 < level ∨ 0 < x := by
  have convex : level + k * (x - level) = (1 - k) * level + k * x := by ring
  have kept : 0 < 1 - k := sub_pos.mpr keeps
  rw [convex, add_pos_iff_of_nonneg (mul_nonneg kept.le levelNonneg)
    (mul_nonneg moves.le valueNonneg), mul_pos_iff_of_pos_left kept, mul_pos_iff_of_pos_left moves]

theorem part_nonneg (period : Nat) : 0 ≤ (1 / period : K) := by positivity

theorem part_le_one {period : Nat} (positive : 0 < period) : (1 / period : K) ≤ 1 := by
  rw [div_le_one (Nat.cast_pos.mpr positive)]
  exact Nat.one_le_cast.mpr positive

theorem tracked_nonneg {k start : K} {xs : List K} (partNonneg : 0 ≤ k) (partLeOne : k ≤ 1)
    (startNonneg : 0 ≤ start) (nonneg : ∀ x ∈ xs, 0 ≤ x) : ∀ v ∈ tracked k start xs, 0 ≤ v := by
  induction xs generalizing start with
  | nil => exact List.forall_mem_singleton.mpr startNonneg
  | cons x rest ih =>
      obtain ⟨first, later⟩ := List.forall_mem_cons.mp nonneg
      have next := approach_nonneg partNonneg partLeOne startNonneg first
      exact List.forall_mem_cons.mpr ⟨startNonneg, ih next later⟩

/-- Levels that keep a part of their past are above zero as soon as one value was. -/
theorem tracked_pos_iff {k start v : K} {xs : List K} {n : Nat} (moves : 0 < k) (keeps : k < 1)
    (startNonneg : 0 ≤ start) (nonneg : ∀ x ∈ xs, 0 ≤ x)
    (here : (tracked k start xs)[n]? = some v) :
    0 < v ↔ 0 < start ∨ ∃ x ∈ xs.take n, 0 < x := by
  induction n generalizing start xs with
  | zero =>
      rw [tracked_zero] at here
      obtain rfl := Option.some_injective _ here
      simp only [List.take_zero, List.not_mem_nil, false_and, exists_false, or_false]
  | succ n ih =>
      cases xs with
      | nil => cases here
      | cons x rest =>
          obtain ⟨first, later⟩ := List.forall_mem_cons.mp nonneg
          rw [ih (approach_nonneg moves.le keeps.le startNonneg first) later here,
            approach_pos_iff moves keeps startNonneg first, List.take_succ_cons,
            List.exists_mem_cons_iff, or_assoc]

/-- A sum of what is not negative is positive just if one of the terms is. -/
theorem sum_pos_iff {xs : List K} (nonneg : ∀ x ∈ xs, 0 ≤ x) : 0 < xs.sum ↔ ∃ x ∈ xs, 0 < x := by
  induction xs with
  | nil => simp
  | cons x rest ih =>
      obtain ⟨first, later⟩ := List.forall_mem_cons.mp nonneg
      rw [List.sum_cons, add_pos_iff_of_nonneg first (List.sum_nonneg later), ih later,
        List.exists_mem_cons_iff]

theorem averaged_nonneg {period : Nat} {values : List K} (positive : 0 < period)
    (nonneg : ∀ x ∈ values, 0 ≤ x) : ∀ v ∈ averaged period values, 0 ≤ v := by
  refine tracked_nonneg (part_nonneg period) (part_le_one positive)
    (div_nonneg ?_ (Nat.cast_nonneg _)) ?_
  · exact List.sum_nonneg fun x member => nonneg x (List.mem_of_mem_take member)
  · exact fun x member => nonneg x (List.mem_of_mem_drop member)

/-- An average is above zero just if one of the values that it remembers is. -/
theorem averaged_pos_iff {period n : Nat} {values : List K} {v : K} (positive : 0 < period)
    (nonneg : ∀ x ∈ values, 0 ≤ x) (seeded : period ≤ values.length)
    (here : (averaged period values)[n]? = some v) :
    0 < v ↔ ∃ x ∈ remembered period (period + n) values, 0 < x := by
  by_cases single : period = 1
  · -- the part is the whole: nothing of the past is kept, and the last value stands alone
    subst single
    rw [averaged_one seeded] at here
    have last : (values.take (1 + n)).drop (1 + n - 1) = [v] := by
      have inside := (List.getElem?_eq_some_iff.mp here).1
      have before : (values.take n).length = n := List.length_take_of_le inside.le
      rw [Nat.add_sub_cancel_left, Nat.add_comm, List.take_add_one, here, List.drop_left' before,
        Option.toList_some]
    simp only [remembered, if_true, last, List.mem_singleton, exists_eq_left]
  · -- the mean covers the first values, the steps from there on cover the others
    have several : (1 : K) < period := Nat.one_lt_cast.mpr (by omega)
    have moves : (0 : K) < 1 / period := by positivity
    have keeps : 1 / period < (1 : K) := by rwa [div_lt_one (by positivity)]
    have early : ∀ x ∈ values.take period, 0 ≤ x := fun x member =>
      nonneg x (List.mem_of_mem_take member)
    have late : ∀ x ∈ values.drop period, 0 ≤ x := fun x member =>
      nonneg x (List.mem_of_mem_drop member)
    have mean : 0 ≤ (values.take period).sum / period :=
      div_nonneg (List.sum_nonneg early) (Nat.cast_nonneg _)
    rw [tracked_pos_iff moves keeps mean late here, div_pos_iff_of_pos_right (by positivity),
      sum_pos_iff early, remembered, if_neg single, List.take_add]
    simp only [List.mem_append, or_and_right, exists_or]

end Levels

/-! ## Shares -/

variable [LinearOrder K]

/-- The part of the gain in all movement, from 0 to 100; half of it where nothing moves. -/
def strength (gain loss : K) : K :=
  if gain + loss = 0 then (50 : Nat) else (100 : Nat) * gain / (gain + loss)

theorem strength_eq (gain loss : K) :
    strength gain loss = if gain + loss = 0 then 50 else 100 * gain / (gain + loss) := rfl

theorem strength_swap (gain loss : K) : strength loss gain = 100 - strength gain loss := by
  rw [strength_eq, strength_eq]
  by_cases still : gain + loss = 0
  · rw [if_pos still, if_pos (by rwa [add_comm])]
    norm_num
  · rw [if_neg still, if_neg (by rwa [add_comm]), add_comm loss gain]
    field_simp
    ring

theorem strength_scale {a : K} (nonzero : a ≠ 0) (gain loss : K) :
    strength (a * gain) (a * loss) = strength gain loss := by
  rw [strength_eq, strength_eq]
  by_cases still : gain + loss = 0
  · rw [if_pos still, if_pos (by rw [← mul_add, still, mul_zero])]
  · rw [if_neg still, if_neg (by rw [← mul_add]; exact mul_ne_zero nonzero still), ← mul_add,
      mul_left_comm, mul_div_mul_left _ _ nonzero]

/-- The upward part of a change. -/
def rise (c : K) : K := max c 0

/-- The downward part of a change, as a positive number. -/
def fall (c : K) : K := max (-c) 0

theorem rise_nonneg (c : K) : 0 ≤ rise c := le_max_right _ _

theorem fall_nonneg (c : K) : 0 ≤ fall c := le_max_right _ _

/-- The index at each value of a series. -/
def indexes (period : Nat) (xs : List K) : List K :=
  if xs.length ≤ period then List.replicate xs.length 50
  else List.replicate period 50 ++
    List.zipWith strength (averaged period ((steps xs).map rise))
      (averaged period ((steps xs).map fall))

theorem length_indexes (period : Nat) (xs : List K) : (indexes period xs).length = xs.length := by
  unfold indexes
  split
  · exact List.length_replicate
  · rw [List.length_append, List.length_replicate, List.length_zipWith, length_averaged,
      length_averaged, List.length_map, List.length_map, length_steps]
    omega

/-- Before the seed the index is in the middle. -/
theorem indexes_early {period i : Nat} {xs : List K} (early : i < period) (inside : i < xs.length) :
    (indexes period xs)[i]? = some 50 := by
  unfold indexes
  split
  · rw [List.getElem?_replicate, if_pos inside]
  · rw [List.getElem?_append_left (by rwa [List.length_replicate]), List.getElem?_replicate,
      if_pos early]

/-- Turning the changes round exchanges gains and losses. -/
theorem indexes_reflect (c : K) (period : Nat) (xs : List K) :
    indexes period (xs.map (c - ·)) = (indexes period xs).map (100 - ·) := by
  have rises : ((steps xs).map (-·)).map rise = (steps xs).map fall := by
    rw [List.map_map]
    rfl
  have falls : ((steps xs).map (-·)).map fall = (steps xs).map rise := by
    rw [List.map_map]
    refine List.map_congr_left fun d _ => ?_
    rw [Function.comp_apply, fall, neg_neg, rise]
  have half : (100 - 50 : K) = 50 := by norm_num
  unfold indexes
  rw [List.length_map, steps_reflect, rises, falls]
  split
  · rw [List.map_replicate, half]
  · rw [List.map_append, List.map_replicate, half, List.map_zipWith, List.zipWith_comm]
    simp only [← strength_swap]

section Ordered

variable [IsStrictOrderedRing K]

/-- A change of scale multiplies all gains and losses, which leaves their shares. -/
theorem indexes_affine {a : K} (positive : 0 < a) (b : K) (period : Nat) (xs : List K) :
    indexes period (xs.map fun x => a * x + b) = indexes period xs := by
  have scaled (part : K → K) (linear : ∀ d, part (a * d) = a * part d) :
      ((steps xs).map (a * ·)).map part = ((steps xs).map part).map (a * ·) := by
    rw [List.map_map, List.map_map]
    exact List.map_congr_left fun d _ => linear d
  have rises := scaled rise fun d => by
    rw [rise, rise, mul_max_of_nonneg _ _ positive.le, mul_zero]
  have falls := scaled fall fun d => by
    rw [fall, fall, mul_max_of_nonneg _ _ positive.le, mul_zero, mul_neg]
  unfold indexes
  rw [List.length_map, steps_affine, rises, falls, averaged_scale, averaged_scale,
    List.zipWith_map]
  simp only [strength_scale positive.ne']

/-- A share of what is not negative is a percentage. -/
theorem strength_range {gain loss : K} (up : 0 ≤ gain) (down : 0 ≤ loss) :
    0 ≤ strength gain loss ∧ strength gain loss ≤ 100 := by
  rw [strength_eq]
  by_cases still : gain + loss = 0
  · rw [if_pos still]
    norm_num
  · have total : 0 < gain + loss := lt_of_le_of_ne (add_nonneg up down) (Ne.symm still)
    rw [if_neg still, div_le_iff₀ total]
    refine ⟨by positivity, ?_⟩
    linarith

theorem ne_zero_iff_moves (c : K) : c ≠ 0 ↔ 0 < rise c ∨ 0 < fall c := by
  have rises : 0 < rise c ↔ 0 < c := lt_max_iff.trans (or_iff_left (lt_irrefl 0))
  have falls : 0 < fall c ↔ 0 < -c := lt_max_iff.trans (or_iff_left (lt_irrefl 0))
  rw [rises, falls, neg_pos, or_comm, ne_iff_lt_or_gt]

/-- From the seed on there is an average of the changes' parts to one side. -/
theorem averaged_part {part : K → K} (nonneg : ∀ c, 0 ≤ part c) {period i : Nat} {xs : List K}
    (positive : 0 < period) (late : period ≤ i) (inside : i < xs.length) :
    ∃ v, (averaged period ((steps xs).map part))[i - period]? = some v ∧ 0 ≤ v ∧
      (0 < v ↔ ∃ c ∈ remembered period i (steps xs), 0 < part c) := by
  have count : ((steps xs).map part).length = xs.length - 1 := by
    rw [List.length_map, length_steps]
  have found : i - period < (averaged period ((steps xs).map part)).length := by
    rw [length_averaged, count]
    omega
  have here := List.getElem?_eq_getElem found
  have parts : ∀ x ∈ (steps xs).map part, 0 ≤ x := List.forall_mem_map.mpr fun c _ => nonneg c
  refine ⟨_, here, averaged_nonneg positive parts _ (List.getElem_mem found), ?_⟩
  rw [averaged_pos_iff positive parts (by omega) here, Nat.add_sub_cancel' late, remembered_map]
  simp only [List.mem_map, exists_exists_and_eq_and]

/-- From the seed on the index is the share of two averages, which are above zero together just if
some change was not zero. -/
theorem indexes_getElem? {period i : Nat} {xs : List K} (positive : 0 < period) (late : period ≤ i)
    (inside : i < xs.length) :
    ∃ gain loss : K, (averaged period ((steps xs).map rise))[i - period]? = some gain ∧
      (averaged period ((steps xs).map fall))[i - period]? = some loss ∧
      (indexes period xs)[i]? = some (strength gain loss) ∧ 0 ≤ gain ∧ 0 ≤ loss ∧
      (0 < gain + loss ↔ ∃ c ∈ remembered period i (steps xs), c ≠ 0) := by
  obtain ⟨gain, up, gainNonneg, gains⟩ := averaged_part rise_nonneg positive late inside
  obtain ⟨loss, down, lossNonneg, losses⟩ := averaged_part fall_nonneg positive late inside
  refine ⟨gain, loss, up, down, ?_, gainNonneg, lossNonneg, ?_⟩
  · have heads : (List.replicate period (50 : K)).length = period := List.length_replicate
    rw [indexes, if_neg (by omega), List.getElem?_append_right (by omega), heads,
      List.getElem?_zipWith, up, down]
  · rw [add_pos_iff_of_nonneg gainNonneg lossNonneg, gains, losses]
    simp only [ne_zero_iff_moves, and_or_left, exists_or]

theorem indexes_range {period : Nat} (positive : 0 < period) (xs : List K) :
    ∀ v ∈ indexes period xs, 0 ≤ v ∧ v ≤ 100 := by
  intro v member
  obtain ⟨i, here⟩ := List.mem_iff_getElem?.mp member
  have inside := (List.getElem?_eq_some_iff.mp here).1
  rw [length_indexes] at inside
  by_cases early : i < period
  · obtain rfl := Option.some_injective _ ((indexes_early early inside).symm.trans here)
    norm_num
  · obtain ⟨gain, loss, -, -, share, up, down, -⟩ :=
      indexes_getElem? positive (Nat.not_lt.mp early) inside
    obtain rfl := Option.some_injective _ (share.symm.trans here)
    exact strength_range up down

end Ordered

end Chartist.Rsi
