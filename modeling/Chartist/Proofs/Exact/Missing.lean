import Chartist.Adaptive.Rule
import Chartist.Proofs.Exact.Progress
import Chartist.Proofs.Order.Extreme
import Chartist.Scalar.Binary64

/-!
# Missing changes in efficiency and momentum

A change that is no number leaves no sum (`isNaN_sum`). For the momentum this is the end: what is no
number is not above the least path, and the answer is 0. The efficiency ratio divides by the larger
of path and least path, and a maximum passes over what is no number, so the path counts as the least
one. Where an end of the window is missing the ratio is missing as well; otherwise it takes the
distance of the ends for a multiple of the least path, and is 1 as soon as they are that far apart
(`Broken`). The adaptive average then follows the price as fast as it can
(`missing_change_measured`).
-/

namespace Chartist.Adaptive

open Chartist.Filter Chartist.Rsi Window Scalar

variable {α : Type} [Scalar α]

/-! ## Sums -/

/-- One of four running values is no number. -/
def Lost (lanes : Lanes α) : Prop :=
  isNaN lanes.first = true ∨ isNaN lanes.second = true ∨ isNaN lanes.third = true ∨
    isNaN lanes.fourth = true

section Sums

variable (absorbing : Absorbing α)
include absorbing

theorem isNaN_foldl_add {start : α} {xs : List α}
    (gap : isNaN start = true ∨ ∃ x ∈ xs, isNaN x = true) :
    isNaN (xs.foldl (· + ·) start) = true := by
  -- along the list: the sum is lost already, or an element to come loses it
  induction xs generalizing start with
  | nil =>
      rcases gap with lost | ⟨x, member, -⟩
      · exact lost
      · cases member
  | cons x rest ih =>
      rw [List.exists_mem_cons_iff, ← or_assoc] at gap
      exact ih (gap.imp_left (absorbing.add _ _))

/-- An element that is no number loses its lane, or is among those that are left over. -/
theorem lost_fold {lanes : Lanes α} {xs : List α} (gap : Lost lanes ∨ ∃ x ∈ xs, isNaN x = true) :
    Lost (Lanes.fold (· + ·) lanes xs).1 ∨
      ∃ x ∈ (Lanes.fold (· + ·) lanes xs).2, isNaN x = true := by
  induction lanes, xs using Lanes.fold.induct (fun x y : α => x + y) with
  | case1 lanes a b c d rest ih =>
      apply ih
      simp only [List.exists_mem_cons_iff] at gap
      rcases gap with (lost | lost | lost | lost) | here | here | here | here | later
      · exact .inl (.inl (absorbing.add _ _ (.inl lost)))
      · exact .inl (.inr (.inl (absorbing.add _ _ (.inl lost))))
      · exact .inl (.inr (.inr (.inl (absorbing.add _ _ (.inl lost)))))
      · exact .inl (.inr (.inr (.inr (absorbing.add _ _ (.inl lost)))))
      · exact .inl (.inl (absorbing.add _ _ (.inr here)))
      · exact .inl (.inr (.inl (absorbing.add _ _ (.inr here))))
      · exact .inl (.inr (.inr (.inl (absorbing.add _ _ (.inr here)))))
      · exact .inl (.inr (.inr (.inr (absorbing.add _ _ (.inr here)))))
      · exact .inr later
  | case2 lanes rest short =>
      rwa [Lanes.fold_of_short _ lanes rest short]

theorem isNaN_sum {xs : List α} (gap : ∃ x ∈ xs, isNaN x = true) : isNaN (sum xs) = true := by
  apply isNaN_foldl_add absorbing
  rcases lost_fold absorbing (.inr gap) with (first | second | third | fourth) | left
  · exact .inl (absorbing.add _ _ (.inl (absorbing.add _ _ (.inl first))))
  · exact .inl (absorbing.add _ _ (.inl (absorbing.add _ _ (.inr second))))
  · exact .inl (absorbing.add _ _ (.inr (absorbing.add _ _ (.inl third))))
  · exact .inl (absorbing.add _ _ (.inr (absorbing.add _ _ (.inr fourth))))
  · exact .inr left

end Sums

/-! ## Both measures -/

/-- What both measures say of a window that leads from one value to another with a missing change
on the way. The momentum is 0. The efficiency ratio is missing if an end is; between numbers it is a
number of the range, 0 just where the ends are the same, and 1 as soon as they are as far apart as
the least path. -/
structure Broken (first last ratio momentum : α) : Prop where
  momentum : momentum = 0
  clamped : ratio = clamp (Scalar.abs (last - first) / epsilon) 0 1
  lost : isNaN first = true ∨ isNaN last = true → isNaN ratio = true
  range : isFinite first = true → isFinite last = true → within 0 ratio 1 = true
  still : isFinite first = true → isFinite last = true →
    (ratio = 0 ∨ isNaN ratio = true ↔ first = last)
  whole : isFinite first = true → isFinite last = true →
    (ratio = 1 ↔ le epsilon (Scalar.abs (last - first)) = true)

section Windows

variable (absorbing : Absorbing α) {window : List α}
  (missing : ∃ c ∈ changes window, isNaN c = true)
include absorbing missing

/-- A missing change counts as a loss, and leaves no total. -/
theorem momentumOf_missing (incomparable : Incomparable α) : momentumOf window = 0 := by
  obtain ⟨c, member, gap⟩ := missing
  have down : loss c = -c := by simp [loss, incomparable.lt 0 c (.inr gap)]
  have noLosses : isNaN (sum ((changes window).map loss)) = true := by
    apply isNaN_sum absorbing
    exact ⟨loss c, List.mem_map_of_mem member, down ▸ absorbing.neg c gap⟩
  have noTotal := absorbing.add (sum ((changes window).map gain)) _ (.inr noLosses)
  simp [momentumOf, incomparable.lt _ _ (.inr noTotal)]

/-- Without a path, the distance is taken for a part of the least one. -/
theorem efficiencyOf_missing {first last : α} (starts : window[0]? = some first)
    (ends : window.getLast? = some last) :
    efficiencyOf window = clamp (Scalar.abs (last - first) / epsilon) 0 1 := by
  obtain ⟨c, member, gap⟩ := missing
  have noPath : isNaN (sum ((changes window).map Scalar.abs)) = true := by
    apply isNaN_sum absorbing
    exact ⟨Scalar.abs c, List.mem_map_of_mem member, absorbing.abs c gap⟩
  simp only [efficiencyOf, starts, ends, Option.getD_some, maxNum, noPath, if_true]

end Windows

/-- Clamping leaves what compares with nothing as it is. -/
theorem clamp_missing (incomparable : Incomparable α) {x : α} (gap : isNaN x = true) (lo hi : α) :
    clamp x lo hi = x := by
  simp [clamp, incomparable.lt x lo (.inl gap), incomparable.lt hi x (.inr gap)]

section Exact

variable {K : Type} [Field K] [LinearOrder K] {num : K → α} (exact : Exact num)
  (ordinary : Ordinary num) (absorbing : Absorbing α) (incomparable : Incomparable α)

include exact ordinary in
/-- What is no number is no finite one. -/
theorem not_finite_of_isNaN {a : α} (gap : isNaN a = true) : isFinite a = false := by
  rw [← Bool.not_eq_true]
  intro finite
  obtain ⟨x, rfl⟩ := (exact.isFinite a).mp finite
  rw [ordinary.isNaN x] at gap
  cases gap

variable [IsStrictOrderedRing K]

include exact ordinary in
/-- The part that a distance is of the least path, between two numbers. -/
theorem leap_num (first last : K) :
    clamp (Scalar.abs (num last - num first) / epsilon) 0 1 =
      num (min (max (|last - first| / leastPath) 0) 1) := by
  rw [exact.sub, ordinary.abs, epsilon_num exact, exact.div _ _ leastPath_pos.ne', exact.zero,
    exact.one, exact.clamp]

include exact ordinary absorbing incomparable in
theorem broken_of_missing {window : List α} {first last : α} (starts : window[0]? = some first)
    (ends : window.getLast? = some last) (missing : ∃ c ∈ changes window, isNaN c = true) :
    Broken first last (efficiencyOf window) (momentumOf window) := by
  rw [efficiencyOf_missing absorbing missing starts ends,
    momentumOf_missing absorbing missing incomparable]
  refine ⟨rfl, rfl, ?_, ?_, ?_, ?_⟩
  · intro gap
    have noDistance : isNaN (Scalar.abs (last - first) / epsilon : α) = true :=
      absorbing.div _ _ (.inl (absorbing.abs _ (absorbing.sub _ _ gap.symm)))
    rw [clamp_missing incomparable noDistance]
    exact noDistance
  all_goals
    intro finiteFirst finiteLast
    obtain ⟨a, rfl⟩ := (exact.isFinite first).mp finiteFirst
    obtain ⟨b, rfl⟩ := (exact.isFinite last).mp finiteLast
    have same (x y : K) : num x = num y ↔ x = y := ⟨exact.injective, congrArg num⟩
    have positive : (0 : K) < leastPath := leastPath_pos
    have part : 0 ≤ |b - a| / (leastPath : K) := div_nonneg (abs_nonneg _) positive.le
    rw [leap_num exact ordinary, max_eq_left part]
  · rw [exact.zero, exact.one, exact.within]
    exact ⟨le_min part zero_le_one, min_le_right _ _⟩
  · rw [ordinary.isNaN, exact.zero, same, same]
    constructor
    · rintro (none | number)
      · have apart : |b - a| / (leastPath : K) = 0 := by
          rcases min_choice (|b - a| / (leastPath : K)) 1 with short | long
          · rw [← short, none]
          · exact absurd (long.symm.trans none) one_ne_zero
        rw [div_eq_zero_iff, abs_eq_zero, sub_eq_zero] at apart
        exact (apart.resolve_right positive.ne').symm
      · cases number
    · rintro rfl
      left
      rw [sub_self, abs_zero, zero_div, min_eq_left zero_le_one]
  · rw [exact.one, same, min_eq_right_iff, one_le_div positive, epsilon_num exact, exact.sub,
      ordinary.abs, exact.le, decide_eq_true_eq]

/-! ## The factor of the adaptive average -/

include exact in
theorem kamaAlpha_num (r : K) (fast slow : Nat) :
    let f : K := (2 : Nat) / (fast + 1)
    let s : K := (2 : Nat) / (slow + 1)
    kamaAlpha (num r) fast slow = num (min ((r * (f - s) + s) * (r * (f - s) + s)) 1) := by
  intro f s
  have square : 0 ≤ (r * (f - s) + s) * (r * (f - s) + s) := mul_self_nonneg _
  simp only [kamaAlpha, exact.emaAlpha, exact.sub, exact.mul, exact.add]
  rw [clampAlpha, if_pos (exact.finite _), exact.zero, exact.one, exact.clamp, max_eq_left square]

include exact in
/-- No ratio of the range is followed faster than 1. -/
theorem kamaAlpha_le_one {fast slow : Nat} (shorter : fast < slow) {r : α}
    (inside : within 0 r 1 = true) :
    le (kamaAlpha r fast slow) (kamaAlpha 1 fast slow) = true := by
  rw [exact.zero, exact.one] at inside
  obtain ⟨k, rfl, nonneg, below⟩ := exact.exists_of_within inside
  obtain ⟨f, quick⟩ : ∃ f : K, f = (2 : Nat) / (fast + 1) := ⟨_, rfl⟩
  obtain ⟨s, slack⟩ : ∃ s : K, s = (2 : Nat) / (slow + 1) := ⟨_, rfl⟩
  have places : (0 : K) < fast + 1 := Nat.cast_add_one_pos fast
  have order : s ≤ f := by
    rw [quick, slack]
    have longer : (fast : K) + 1 ≤ slow + 1 := by exact_mod_cast Nat.succ_le_succ shorter.le
    exact div_le_div_of_nonneg_left (Nat.cast_nonneg _) places longer
  have positive : 0 ≤ s := by
    rw [slack]
    positivity
  have gained : 0 ≤ k * (f - s) := mul_nonneg nonneg (sub_nonneg.mpr order)
  have reach : k * (f - s) ≤ 1 * (f - s) := mul_le_mul_of_nonneg_right below (sub_nonneg.mpr order)
  rw [exact.one, kamaAlpha_num exact, kamaAlpha_num exact, exact.le, decide_eq_true_eq, ← quick,
    ← slack]
  apply min_le_min_right
  apply mul_self_le_mul_self
  · linarith
  · linarith

omit [IsStrictOrderedRing K] in
include exact ordinary absorbing in
/-- A ratio that is missing holds the average. -/
theorem kamaAlpha_missing {r : α} (gap : isNaN r = true) (fast slow : Nat) :
    kamaAlpha r fast slow = 0 := by
  obtain ⟨x, same⟩ : ∃ x : α, x = r * (emaAlpha fast - emaAlpha slow) + emaAlpha slow := ⟨_, rfl⟩
  have lost : isNaN x = true := by
    rw [same]
    exact absorbing.add _ _ (.inl (absorbing.mul _ _ (.inl gap)))
  have unknown := not_finite_of_isNaN exact ordinary (absorbing.mul x x (.inl lost))
  simp [kamaAlpha, clampAlpha, ← same, unknown]

end Exact

/-- A missing change on the way does not keep a window from looking like a perfect trend. Over every
window of changes that holds one, the momentum is 0 and the efficiency ratio tells nothing but how
far the ends are apart (`Broken`): it is 0 or missing just where an end is missing or the ends are
the same, and 1 for any ends as far apart as the least path. There the factor of an adaptive average
is the greatest that any ratio leads to, while a missing end holds the average. -/
theorem missing_change_measured {K : Type} [Field K] [LinearOrder K] [IsStrictOrderedRing K]
    {num : K → α} (exact : Exact num) (ordinary : Ordinary num) (absorbing : Absorbing α)
    (incomparable : Incomparable α) {data : List α} {period i : Nat} {last : α}
    (here : data[i]? = some last)
    (missing : ∃ c ∈ changes (trailing data i (period + 1)), isNaN c = true) :
    ∃ first ratio balance, data[i - period]? = some first ∧
      (efficiencyRatio data period)[i]? = some ratio ∧ (momentum data period)[i]? = some balance ∧
      Broken first last ratio balance ∧
      ∀ fast slow, ((Rule.efficiency period fast slow).validate : Except (StudyError α) Unit) =
          .ok () → period ≤ i →
        ∃ factor, ((Rule.efficiency period fast slow).alphas data)[i]? = some factor ∧
          (isNaN first = true ∨ isNaN last = true → factor = 0) ∧
          (isFinite first = true → isFinite last = true →
            le epsilon (Scalar.abs (last - first)) = true →
              factor = kamaAlpha 1 fast slow ∧
              ∀ r : α, within 0 r 1 = true → le (kamaAlpha r fast slow) factor = true) := by
  have inside : i < data.length := (List.getElem?_eq_some_iff.mp here).1
  obtain ⟨first, stop, before, atStop, starts, ends⟩ := ends_of_window inside period
  obtain rfl := Option.some_injective _ (here.symm.trans atStop)
  have broken := broken_of_missing exact ordinary absorbing incomparable starts ends missing
  have ratio : (efficiencyRatio data period)[i]? =
      some (efficiencyOf (trailing data i (period + 1))) := by
    rw [efficiencyRatio_eq_rolling, getElem?_rolling _ inside]
  refine ⟨first, _, _, before, ratio, ?_, broken, ?_⟩
  · rw [momentum_eq_rolling, getElem?_rolling _ inside]
  · intro fast slow accepted late
    have shorter : fast < slow := by
      obtain ⟨_, -, rest⟩ := exists_of_bind_ok accepted
      obtain ⟨_, -, rest⟩ := exists_of_bind_ok rest
      obtain ⟨_, -, rest⟩ := exists_of_bind_ok rest
      exact of_decide_eq_true (require_ok rest)
    refine ⟨kamaAlpha (efficiencyOf (trailing data i (period + 1))) fast slow, ?_, ?_, ?_⟩
    · rw [Rule.alphas, afterLookback, List.getElem?_mapIdx, ratio, Option.map_some, Rule.lookback,
        if_neg (Nat.not_lt.mpr late)]
    · intro gap
      exact kamaAlpha_missing exact ordinary absorbing (broken.lost gap) fast slow
    · intro finiteFirst finiteLast apart
      rw [(broken.whole finiteFirst finiteLast).mpr apart]
      refine ⟨rfl, ?_⟩
      intro r range
      exact kamaAlpha_le_one exact shorter range

/-- A price is missing between 12 and 14, three changes apart: the ratio is 1 and the average is
drawn towards 14 by 4/9, the square of its fast constant. Where the missing price is the first of
the window, the average is held. -/
theorem missing_change_measured_ratio :
    let data : List Ratio := [.of 10, .of 12, nan, .of 11, .of 14, .of 15]
    let rule : Rule := .efficiency 3 2 5
    Exact Ratio.of ∧ Ordinary Ratio.of ∧ Absorbing Ratio ∧ Incomparable Ratio ∧
    data[4]? = some (.of 14) ∧ data[5]? = some (.of 15) ∧
    (∃ c ∈ changes (trailing data 4 4), isNaN c = true) ∧
    (∃ c ∈ changes (trailing data 5 4), isNaN c = true) ∧
    (rule.validate : Except (StudyError Ratio) Unit) = .ok () ∧ 3 ≤ 4 ∧ 3 ≤ 5 ∧
    (∃ ratio balance, (efficiencyRatio data 3)[4]? = some ratio ∧
      (momentum data 3)[4]? = some balance ∧ Broken (.of 12) (.of 14) ratio balance ∧
      ratio = 1 ∧ balance = 0) ∧
    (∃ factor, (rule.alphas data)[4]? = some factor ∧ factor = .of (4 / 9) ∧
      ∀ r : Ratio, within 0 r 1 = true → le (kamaAlpha r 2 5) factor = true) ∧
    (rule.alphas data)[5]? = some 0 := by
  intro data rule
  have gap4 : ∃ c ∈ changes (trailing data 4 4), isNaN c = true := by decide +kernel
  have gap5 : ∃ c ∈ changes (trailing data 5 4), isNaN c = true := by decide +kernel
  obtain ⟨first, ratio, balance, before, isRatio, isBalance, broken, factors⟩ :=
    missing_change_measured Ratio.exact Ratio.ordinary Ratio.absorbing Ratio.incomparable
      (show data[4]? = some (.of 14) from rfl) gap4
  obtain rfl : Ratio.of 12 = first := Option.some_injective _ before
  have apart : le epsilon (Scalar.abs (Ratio.of 14 - .of 12)) = true := by decide +kernel
  obtain ⟨factor, isFactor, -, quick⟩ := factors 2 5 rfl (by decide)
  obtain ⟨greatest, most⟩ := quick rfl rfl apart
  have square : kamaAlpha (1 : Ratio) 2 5 = .of (4 / 9) := by decide +kernel
  obtain ⟨first', -, -, before', -, -, -, held⟩ :=
    missing_change_measured Ratio.exact Ratio.ordinary Ratio.absorbing Ratio.incomparable
      (show data[5]? = some (.of 15) from rfl) gap5
  obtain rfl : nan = first' := Option.some_injective _ before'
  obtain ⟨factor', isFactor', zero, -⟩ := held 2 5 rfl (by decide)
  rw [zero (.inl rfl)] at isFactor'
  exact ⟨Ratio.exact, Ratio.ordinary, Ratio.absorbing, Ratio.incomparable, rfl, rfl, gap4, gap5,
    rfl, by decide, by decide,
    ⟨ratio, balance, isRatio, isBalance, broken, (broken.whole rfl rfl).mpr apart, broken.momentum⟩,
    ⟨factor, isFactor, greatest.trans square, most⟩, isFactor'⟩

/-- A missing price between 1 and 3 is taken for a perfect trend, and the average follows it as it
follows one; the momentum of the same window is 0. -/
theorem missing_change_perfect :
    let data : List Float := [1, nan, 3]
    (∃ c ∈ changes (trailing data 2 3), isNaN c = true) ∧
    (efficiencyRatio data 2)[2]? = some 1 ∧ (momentum data 2)[2]? = some 0 ∧
    ((Rule.efficiency 2 2 30).alphas data)[2]? = some (kamaAlpha 1 2 30) ∧
    lt (kamaAlpha (0 : Float) 2 30) (kamaAlpha 1 2 30) = true := by
  refine ⟨?_, ?_, ?_, ?_, ?_⟩
  all_goals decide +kernel

end Chartist.Adaptive
