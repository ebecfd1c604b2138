import Chartist.Proofs.Exact.Rsi
import Chartist.Proofs.Local.Indicator
import Chartist.Proofs.Ratio
import Mathlib.Algebra.Order.Group.MinMax

/-!
# Efficiency and momentum measure the same thing

The efficiency ratio is the distance between the ends of a window as a part of the path walked in
between; the momentum is the balance of gains and losses as a part of their total. The changes of a
window add up to the difference of its ends (`sum_steps`), and gains and losses together to the
path (`ups_add_downs`). So both come from the same two numbers, of which the first is never above
the second (`abs_sum_le_path`): wherever the path is not taken for none, one measure is the other
without its sign, neither needs its clamp, and both are whole just on a way in one direction
(`efficiency_matches_momentum`).
-/

namespace Chartist.Adaptive

open Chartist.Rsi Window Scalar

/-! ## Changes as numbers -/

section Numbers

variable {K : Type} [Field K] [LinearOrder K]

/-- How far changes lead up. -/
def ups (cs : List K) : K := (cs.map rise).sum

/-- How far changes lead down. -/
def downs (cs : List K) : K := (cs.map fall).sum

/-- How far changes lead in either direction. -/
def path (cs : List K) : K := (cs.map fun c => |c|).sum

/-- The distance as a part of the path, which counts as `floor` at least. -/
def efficiency (floor : K) (cs : List K) : K := min (max (|cs.sum| / max (path cs) floor) 0) 1

/-- The balance of ups and downs as a part of the path; 0 where that is not above the floor. -/
def balance (floor : K) (cs : List K) : K :=
  if floor < path cs then min (max (cs.sum / path cs) (-1)) 1 else 0

omit [LinearOrder K] in
/-- The changes between the values of a list add up to the difference of its ends. -/
theorem sum_steps {xs : List K} {first last : K} (starts : xs[0]? = some first)
    (ends : xs.getLast? = some last) : (steps xs).sum = last - first := by
  induction xs generalizing first with
  | nil => cases starts
  | cons x rest ih =>
      cases starts
      cases rest with
      | nil =>
          cases ends
          simp [steps]
      | cons y rest =>
          have later : (steps (y :: rest)).sum = last - y := ih rfl ends
          show y - x + (steps (y :: rest)).sum = last - x
          rw [later]
          ring

variable [IsStrictOrderedRing K]

theorem ups_nonneg (cs : List K) : 0 ≤ ups cs := by
  apply List.sum_nonneg
  rw [List.forall_mem_map]
  intro c _
  exact rise_nonneg c

theorem downs_nonneg (cs : List K) : 0 ≤ downs cs := by
  apply List.sum_nonneg
  rw [List.forall_mem_map]
  intro c _
  exact fall_nonneg c

theorem ups_add_downs (cs : List K) : ups cs + downs cs = path cs := by
  rw [ups, downs, path, ← List.sum_map_add]
  simp only [rise, fall, max_zero_add_max_neg_zero_eq_abs_self]

theorem ups_sub_downs (cs : List K) : ups cs - downs cs = cs.sum := by
  induction cs with
  | nil => simp [ups, downs]
  | cons c rest ih =>
      have here : rise c - fall c = c := max_zero_sub_max_neg_zero_eq_self c
      simp only [ups, downs, List.map_cons, List.sum_cons] at ih ⊢
      linarith

/-- Ups and downs at once cost a detour. -/
theorem abs_sum_le_path (cs : List K) : |cs.sum| ≤ path cs := by
  rw [← ups_sub_downs, ← ups_add_downs, abs_le]
  have up := ups_nonneg cs
  have down := downs_nonneg cs
  constructor <;> linarith

theorem ups_eq_zero_iff (cs : List K) : ups cs = 0 ↔ ∀ c ∈ cs, ¬ 0 < c := by
  have some : 0 < ups cs ↔ ∃ c ∈ cs, 0 < c := by
    rw [ups, sum_pos_iff (List.forall_mem_map.mpr fun c _ => rise_nonneg c)]
    simp [rise]
  rw [← not_iff_not, ← ne_eq, ← (ups_nonneg cs).lt_iff_ne', some]
  push Not
  rfl

theorem downs_eq_zero_iff (cs : List K) : downs cs = 0 ↔ ∀ c ∈ cs, ¬ c < 0 := by
  have some : 0 < downs cs ↔ ∃ c ∈ cs, c < 0 := by
    rw [downs, sum_pos_iff (List.forall_mem_map.mpr fun c _ => fall_nonneg c)]
    simp [fall]
  rw [← not_iff_not, ← ne_eq, ← (downs_nonneg cs).lt_iff_ne', some]
  push Not
  rfl

/-- There is no detour just where all changes that are not zero have one sign. -/
theorem abs_sum_eq_path_iff (cs : List K) :
    |cs.sum| = path cs ↔ (∀ c ∈ cs, ¬ c < 0) ∨ ∀ c ∈ cs, ¬ 0 < c := by
  rw [← downs_eq_zero_iff, ← ups_eq_zero_iff, ← ups_sub_downs, ← ups_add_downs]
  have up := ups_nonneg cs
  have down := downs_nonneg cs
  constructor
  · intro whole
    rcases abs_choice (ups cs - downs cs) with same | turned
    · left
      linarith
    · right
      linarith
  · rintro (none | none)
    · rw [none, sub_zero, add_zero, abs_of_nonneg up]
    · rw [none, zero_sub, zero_add, abs_neg, abs_of_nonneg down]

/-! ## Both measures -/

section Measures

variable {floor : K} {cs : List K} (positive : 0 < floor) (moved : floor < path cs)
include positive moved

theorem efficiency_of_moved : efficiency floor cs = |cs.sum| / path cs := by
  have walked : 0 < path cs := positive.trans moved
  have whole : |cs.sum| / path cs ≤ 1 := (div_le_one walked).mpr (abs_sum_le_path cs)
  rw [efficiency, max_eq_left moved.le, max_eq_left (by positivity), min_eq_left whole]

theorem balance_of_moved : balance floor cs = cs.sum / path cs := by
  have walked : 0 < path cs := positive.trans moved
  obtain ⟨low, high⟩ := abs_le.mp (abs_sum_le_path cs)
  have above : -1 ≤ cs.sum / path cs := by
    rw [le_div_iff₀ walked]
    linarith
  have below : cs.sum / path cs ≤ 1 := (div_le_one walked).mpr high
  rw [balance, if_pos moved, max_eq_left above, min_eq_left below]

theorem efficiency_eq_abs_balance : efficiency floor cs = |balance floor cs| := by
  have walked : 0 < path cs := positive.trans moved
  rw [efficiency_of_moved positive moved, balance_of_moved positive moved, abs_div,
    abs_of_pos walked]

theorem efficiency_eq_one_iff :
    efficiency floor cs = 1 ↔ (∀ c ∈ cs, ¬ c < 0) ∨ ∀ c ∈ cs, ¬ 0 < c := by
  have walked : path cs ≠ 0 := (positive.trans moved).ne'
  rw [efficiency_of_moved positive moved, div_eq_one_iff_eq walked, abs_sum_eq_path_iff]

end Measures

omit [IsStrictOrderedRing K] in
theorem path_neg (cs : List K) : path (cs.map fun c => -c) = path cs := by
  rw [path, List.map_map, path]
  simp only [Function.comp_def, abs_neg]

omit [IsStrictOrderedRing K] in
theorem efficiency_neg (floor : K) (cs : List K) :
    efficiency floor (cs.map fun c => -c) = efficiency floor cs := by
  rw [efficiency, path_neg, ← List.sum_neg, abs_neg, efficiency]

theorem balance_neg {floor : K} (positive : 0 < floor) (cs : List K) :
    balance floor (cs.map fun c => -c) = -balance floor cs := by
  by_cases moved : floor < path cs
  · -- neither side needs its clamp, whose bounds would change places
    have turned : floor < path (cs.map fun c => -c) := (path_neg cs).symm ▸ moved
    rw [balance_of_moved positive turned, balance_of_moved positive moved, path_neg,
      ← List.sum_neg, neg_div]
  · rw [balance, balance, path_neg, if_neg moved, if_neg moved, neg_zero]

theorem efficiency_range (floor : K) (cs : List K) :
    0 ≤ efficiency floor cs ∧ efficiency floor cs ≤ 1 :=
  ⟨le_min (le_max_right _ _) zero_le_one, min_le_right _ _⟩

theorem balance_range (floor : K) (cs : List K) :
    -1 ≤ balance floor cs ∧ balance floor cs ≤ 1 := by
  unfold balance
  split
  · exact ⟨le_min (le_max_right _ _) (by linarith), min_le_right _ _⟩
  · constructor <;> linarith

end Numbers

/-! ## Both measures of a series -/

variable {α : Type} [Scalar α]

/-- All changes that are not zero have one sign: none leads down, or none leads up. -/
def OneSided (moves : List α) : Prop :=
  (∀ c ∈ moves, lt c 0 = false) ∨ ∀ c ∈ moves, lt 0 c = false

/-- An efficiency ratio and a momentum in range, over the moves from one value to another. Where the
moves come to more than the least path, the ratio is the momentum without its sign, both are
quotients that were not clamped, and they are whole just on a way in one direction. -/
structure SameMeasure (first last : α) (moves : List α) (ratio momentum : α) : Prop where
  ratioRange : within 0 ratio 1 = true
  momentumRange : within (-1) momentum 1 = true
  agree : lt epsilon (sum (moves.map Scalar.abs)) = true → ratio = Scalar.abs momentum
  ratioUnclamped : lt epsilon (sum (moves.map Scalar.abs)) = true →
    ratio = Scalar.abs (last - first) / sum (moves.map Scalar.abs)
  momentumUnclamped : lt epsilon (sum (moves.map Scalar.abs)) = true →
    momentum = (sum (moves.map gain) - sum (moves.map loss)) /
      (sum (moves.map gain) + sum (moves.map loss))
  whole : lt epsilon (sum (moves.map Scalar.abs)) = true → (ratio = 1 ↔ OneSided moves)

section Exact

variable {K : Type} [Field K] [LinearOrder K] {num : K → α}

/-- The path that counts as none. -/
def leastPath : K := ((10 ^ 9 : Nat) : K)⁻¹

variable [IsStrictOrderedRing K]

theorem leastPath_pos : (0 : K) < leastPath := by
  unfold leastPath
  positivity

section Windows

variable (exact : Exact num)
include exact

theorem epsilon_num : (epsilon : α) = num leastPath := by
  refine (exact.ofDecimal 1 true 9).trans (congrArg num ?_)
  norm_num [leastPath]

omit [IsStrictOrderedRing K] in
theorem sum_gains_num (cs : List K) : sum ((cs.map num).map gain) = num (ups cs) := by
  rw [map_num (gain_num exact), exact.sum, ups]

theorem sum_losses_num (cs : List K) : sum ((cs.map num).map loss) = num (downs cs) := by
  rw [map_num (loss_num exact), exact.sum, downs]

theorem momentumOf_num (window : List K) :
    momentumOf (window.map num) = num (balance leastPath (steps window)) := by
  simp only [momentumOf, changes_num exact, sum_gains_num exact, sum_losses_num exact, exact.add,
    exact.sub, ups_add_downs, ups_sub_downs, epsilon_num exact, exact.lt, decide_eq_true_eq,
    balance]
  by_cases moved : leastPath < path (steps window)
  · have walked : path (steps window) ≠ 0 := (leastPath_pos.trans moved).ne'
    rw [if_pos moved, if_pos moved, exact.div _ _ walked, exact.one, exact.neg, exact.clamp]
  · rw [if_neg moved, if_neg moved, exact.zero]

variable (ordinary : Ordinary num)
include ordinary

omit [IsStrictOrderedRing K] in
theorem sum_sizes_num (cs : List K) : sum ((cs.map num).map Scalar.abs) = num (path cs) := by
  rw [map_num ordinary.abs, exact.sum, path]

theorem efficiencyOf_num {window : List K} {first last : K} (starts : window[0]? = some first)
    (ends : window.getLast? = some last) :
    efficiencyOf (window.map num) = num (efficiency leastPath (steps window)) := by
  have floored : max (path (steps window)) leastPath ≠ 0 :=
    (leastPath_pos.trans_le (le_max_right _ _)).ne'
  simp only [efficiencyOf, changes_num exact, sum_sizes_num exact ordinary, List.getLast?_map,
    List.getElem?_map, starts, ends, Option.map_some, Option.getD_some, exact.sub, ordinary.abs,
    epsilon_num exact, maxNum_num exact ordinary, exact.div _ _ floored]
  rw [exact.zero, exact.one, exact.clamp, efficiency, sum_steps starts ends]

/-- What both measures say of a window of numbers. -/
theorem sameMeasure_num {window : List K} {first last : K} (starts : window[0]? = some first)
    (ends : window.getLast? = some last) :
    SameMeasure (num first) (num last) (changes (window.map num)) (efficiencyOf (window.map num))
      (momentumOf (window.map num)) := by
  have net := sum_steps starts ends
  have walked (moved : lt epsilon (num (path (steps window))) = true) :
      leastPath < path (steps window) := by
    rwa [epsilon_num exact, exact.lt, decide_eq_true_eq] at moved
  have divisor (moved : leastPath < path (steps window)) : path (steps window) ≠ 0 :=
    (leastPath_pos.trans moved).ne'
  rw [efficiencyOf_num exact ordinary starts ends, momentumOf_num exact, changes_num exact]
  refine ⟨?_, ?_, ?_, ?_, ?_, ?_⟩
  · rw [exact.zero, exact.one, exact.within]
    exact efficiency_range _ _
  · rw [exact.one, exact.neg, exact.within]
    exact balance_range _ _
  · rw [sum_sizes_num exact ordinary, ordinary.abs]
    intro moved
    rw [efficiency_eq_abs_balance leastPath_pos (walked moved)]
  · rw [sum_sizes_num exact ordinary]
    intro moved
    rw [efficiency_of_moved leastPath_pos (walked moved), exact.sub, ordinary.abs,
      exact.div _ _ (divisor (walked moved)), net]
  · rw [sum_sizes_num exact ordinary, sum_gains_num exact, sum_losses_num exact]
    intro moved
    rw [balance_of_moved leastPath_pos (walked moved), exact.sub, exact.add, ups_add_downs,
      ups_sub_downs, exact.div _ _ (divisor (walked moved))]
  · rw [sum_sizes_num exact ordinary]
    intro moved
    have one : num (efficiency leastPath (steps window)) = 1 ↔
        efficiency leastPath (steps window) = 1 := by
      rw [exact.one]
      exact ⟨fun same => exact.injective same, congrArg num⟩
    rw [one, efficiency_eq_one_iff leastPath_pos (walked moved)]
    simp only [OneSided, List.forall_mem_map, exact.zero, exact.lt, decide_eq_false_iff_not]

end Windows

/-! ## Windows of a series -/

omit [Field K] [LinearOrder K] [IsStrictOrderedRing K] in
/-- The window that a measure reads at an index ends there, and starts as many changes before. -/
theorem ends_of_window {xs : List K} {i : Nat} (inside : i < xs.length) (length : Nat) :
    ∃ first last, xs[i - length]? = some first ∧ xs[i]? = some last ∧
      (trailing xs i (length + 1))[0]? = some first ∧
      (trailing xs i (length + 1)).getLast? = some last := by
  have some : 0 < span i (length + 1) := by
    unfold span
    omega
  have starts : start i (length + 1) + 0 = i - length := by
    unfold start span
    omega
  have early : i - length < xs.length := by omega
  refine ⟨xs[i - length], xs[i], List.getElem?_eq_getElem early, List.getElem?_eq_getElem inside,
    ?_, ?_⟩
  · rw [getElem?_trailing some, starts, List.getElem?_eq_getElem early]
  · rw [getLast?_trailing inside (Nat.succ_pos _), List.getElem?_eq_getElem inside]

variable (exact : Exact num)
include exact

theorem momentum_reflect (c : K) (xs : List K) (length : Nat) :
    momentum ((xs.map num).map fun x => num c - x) length =
      (momentum (xs.map num) length).map fun v => -v := by
  rw [map_num (exact.sub c)]
  simp only [momentum_eq_rolling, rolling_map, map_rolling, momentumOf_num exact, steps_reflect,
    balance_neg leastPath_pos, exact.neg]

variable (ordinary : Ordinary num)
include ordinary

theorem efficiencyRatio_reflect (c : K) (xs : List K) (length : Nat) :
    efficiencyRatio ((xs.map num).map fun x => num c - x) length =
      efficiencyRatio (xs.map num) length := by
  rw [map_num (exact.sub c)]
  simp only [efficiencyRatio_eq_rolling, rolling_map]
  apply List.map_congr_left
  intro i member
  obtain ⟨first, last, -, -, starts, ends⟩ := ends_of_window (List.mem_range.mp member) length
  have turnedStart : ((trailing xs i (length + 1)).map (c - ·))[0]? = some (c - first) := by
    rw [List.getElem?_map, starts, Option.map_some]
  have turnedEnd : ((trailing xs i (length + 1)).map (c - ·)).getLast? = some (c - last) := by
    rw [List.getLast?_map, ends, Option.map_some]
  show efficiencyOf (((trailing xs i (length + 1)).map (c - ·)).map num) =
    efficiencyOf ((trailing xs i (length + 1)).map num)
  rw [efficiencyOf_num exact ordinary starts ends, efficiencyOf_num exact ordinary turnedStart
    turnedEnd, steps_reflect, efficiency_neg]

end Exact

/-- Efficiency ratio and momentum measure the same thing. For every finite series, length and index
they are in range, agree up to the sign wherever the window moved by more than the least path, and
are whole there just if it moved in one direction (`SameMeasure`). Reflecting the series turns the
sign of the momentum and leaves the ratio. -/
theorem efficiency_matches_momentum {K : Type} [Field K] [LinearOrder K] [IsStrictOrderedRing K]
    {num : K → α} (exact : Exact num) (ordinary : Ordinary num) {data : List α}
    (finite : ∀ x ∈ data, isFinite x = true) (length : Nat) :
    (efficiencyRatio data length).length = data.length ∧
    (momentum data length).length = data.length ∧
    (∀ i last, data[i]? = some last → ∃ first ratio balance,
      data[i - length]? = some first ∧ (efficiencyRatio data length)[i]? = some ratio ∧
      (momentum data length)[i]? = some balance ∧
      SameMeasure first last (changes (trailing data i (length + 1))) ratio balance) ∧
    ∀ c : α, isFinite c = true →
      (momentum (data.map fun x => c - x) length = (momentum data length).map fun v => -v) ∧
      efficiencyRatio (data.map fun x => c - x) length = efficiencyRatio data length := by
  obtain ⟨xs, rfl⟩ := exact.exists_map finite
  refine ⟨?_, ?_, ?_, ?_⟩
  · rw [efficiencyRatio_eq_rolling, length_rolling]
  · rw [momentum_eq_rolling, length_rolling]
  · intro i last here
    have inside : i < (xs.map num).length := (List.getElem?_eq_some_iff.mp here).1
    have insideNumbers : i < xs.length := by rwa [List.length_map] at inside
    obtain ⟨first, stop, before, atStop, starts, ends⟩ := ends_of_window insideNumbers length
    rw [List.getElem?_map, atStop, Option.map_some] at here
    obtain rfl := Option.some_injective _ here
    have measured := sameMeasure_num exact ordinary starts ends
    rw [← trailing_map] at measured
    refine ⟨num first, _, _, ?_, ?_, ?_, measured⟩
    · rw [List.getElem?_map, before, Option.map_some]
    · rw [efficiencyRatio_eq_rolling, getElem?_rolling _ inside]
    · rw [momentum_eq_rolling, getElem?_rolling _ inside]
  · intro c finiteC
    obtain ⟨k, rfl⟩ := (exact.isFinite c).mp finiteC
    exact ⟨momentum_reflect exact k xs length, efficiencyRatio_reflect exact ordinary k xs length⟩

/-- A rise with one setback in three changes: half of the path of 8 was progress. -/
theorem efficiency_matches_momentum_ratio :
    let data : List Ratio := [.of 10, .of 12, .of 10, .of 14]
    Exact Ratio.of ∧ Ordinary Ratio.of ∧ (∀ x ∈ data, isFinite x = true) ∧
    efficiencyRatio data 3 = [.of 0, .of 1, .of 0, .of (1 / 2)] ∧
    momentum data 3 = [.of 0, .of 1, .of 0, .of (1 / 2)] ∧
    (∃ ratio balance, (efficiencyRatio data 3)[3]? = some ratio ∧
      (momentum data 3)[3]? = some balance ∧
      SameMeasure (.of 10) (.of 14) [.of 2, .of (-2), .of 4] ratio balance) ∧
    momentum (data.map fun x => .of 20 - x) 3 = (momentum data 3).map (fun v => -v) ∧
    efficiencyRatio (data.map fun x => .of 20 - x) 3 = efficiencyRatio data 3 := by
  intro data
  have finite : ∀ x ∈ data, isFinite x = true := by decide
  obtain ⟨-, -, measured, reflected⟩ :=
    efficiency_matches_momentum Ratio.exact Ratio.ordinary finite 3
  obtain ⟨first, ratio, balance, before, isRatio, isBalance, same⟩ := measured 3 (.of 14) rfl
  obtain rfl : Ratio.of 10 = first := Option.some_injective _ before
  have moves : changes (trailing data 3 4) = [.of 2, .of (-2), .of 4] := by decide +kernel
  obtain ⟨turned, kept⟩ := reflected (.of 20) rfl
  exact ⟨Ratio.exact, Ratio.ordinary, finite, by decide +kernel, by decide +kernel,
    ⟨ratio, balance, isRatio, isBalance, moves ▸ same⟩, turned, kept⟩

end Chartist.Adaptive
