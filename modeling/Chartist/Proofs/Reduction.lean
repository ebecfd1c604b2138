import Chartist.Proofs.Exact.Window
import Chartist.Proofs.Order.Gap
import Chartist.Proofs.Ratio

/-!
# Lanes reduce like a plain loop

A reduction takes groups of four off a list, one element for each lane, combines the lanes and goes
on with what is left. With exact arithmetic the sums of a list, of its squared distances from a mean
and of the products of two lists are the plain ones, whatever the number of elements is. The
extremes are those of the numbers among the elements; where there is none, every lane keeps its
seed, and so does the answer (`reduce_of_fixed`). Main statement: `reductions_plain`.
-/

namespace Chartist.Window

open Scalar

/-! ## Sums -/

section Sums

variable {α K : Type} [Scalar α] [Field K]

/-- Products of two lists are taken index by index, as far as both lists reach. -/
theorem sum_zipWith_mul (xs ys : List K) :
    (List.zipWith (· * ·) xs ys).sum =
      ∑ k ∈ Finset.range (min xs.length ys.length), xs.getD k 0 * ys.getD k 0 := by
  induction xs generalizing ys with
  | nil => simp
  | cons x xs ih =>
      cases ys with
      | nil => simp
      | cons y ys =>
          simp only [List.zipWith_cons_cons, List.sum_cons, List.length_cons, Nat.add_min_add_right,
            Finset.sum_range_succ', List.getD_cons_succ, List.getD_cons_zero]
          rw [ih, add_comm]

variable [LinearOrder K] {num : K → α} (exact : Exact num)
include exact

theorem sumSqDev_num (xs : List K) (m : K) :
    sumSqDev (xs.map num) (num m) = num (xs.map fun x => (x - m) ^ 2).sum := by
  have squared : (xs.map num).map (fun x => (x - num m) * (x - num m)) =
      (xs.map fun x => (x - m) ^ 2).map num := by
    simp only [List.map_map, Function.comp_def, exact.sub, exact.mul, pow_two]
  rw [sumSqDev, squared, exact.sum]

end Sums

/-! ## Extremes -/

section Extremes

variable {α : Type}

/-- Lanes that all elements leave as they are stay so, and nothing but elements is left over. -/
theorem fold_of_fixed {lane : α → α → α} {seed : α} (lanes : Lanes α) (xs : List α)
    (start : lanes = Lanes.splat seed) (fixed : ∀ x ∈ xs, lane seed x = seed) :
    (Lanes.fold lane lanes xs).1 = Lanes.splat seed ∧
      ∀ x ∈ (Lanes.fold lane lanes xs).2, x ∈ xs := by
  induction lanes, xs using Lanes.fold.induct lane with
  | case1 lanes a b c d rest ih =>
      subst start
      simp only [List.forall_mem_cons] at fixed
      obtain ⟨fixedA, fixedB, fixedC, fixedD, later⟩ := fixed
      have stays : (⟨lane seed a, lane seed b, lane seed c, lane seed d⟩ : Lanes α) =
          Lanes.splat seed := by
        rw [fixedA, fixedB, fixedC, fixedD]
        rfl
      obtain ⟨last, left⟩ := ih stays later
      refine ⟨last, ?_⟩
      intro x member
      have inRest : x ∈ rest := left x member
      simp [inRest]
  | case2 lanes rest short =>
      rw [Lanes.fold_of_short lane lanes rest short]
      refine ⟨start, ?_⟩
      intro x member
      exact member

/-- A reduction answers its seed if no element changes it. -/
theorem reduce_of_fixed {lane pick : α → α → α} {seed : α} {xs : List α}
    (lanes : ∀ x ∈ xs, lane seed x = seed) (same : pick seed seed = seed)
    (left : ∀ x ∈ xs, pick seed x = seed) : reduce lane pick seed xs = seed := by
  obtain ⟨running, rest⟩ := fold_of_fixed (Lanes.splat seed) xs rfl lanes
  have run (ys : List α) (each : ∀ y ∈ ys, pick seed y = seed) : ys.foldl pick seed = seed := by
    induction ys with
    | nil => rfl
    | cons y ys ih =>
        obtain ⟨here, later⟩ := List.forall_mem_cons.mp each
        rw [List.foldl_cons, here, ih later]
  have folded : Lanes.fold lane (Lanes.splat seed) xs =
      (Lanes.splat seed, (Lanes.fold lane (Lanes.splat seed) xs).2) := Prod.ext running rfl
  unfold reduce
  rw [folded]
  show List.foldl pick (pick (pick (pick seed seed) seed) seed) _ = seed
  rw [same, same, same]
  apply run
  intro y member
  exact left y (rest y member)

variable [Scalar α] {L : Type} [LinearOrder L] {place : α → L}

/-- Nothing for an empty list, and otherwise the extremes of its numbers: without any, the least
value is above every number, and the greatest one below. -/
structure PlainExtent (xs : List α) (extent : Option (α × α)) : Prop where
  none_iff : extent = none ↔ xs = []
  extremes : ∀ low high, extent = some (low, high) → numbers xs ≠ [] →
    IsLowest low (numbers xs) ∧ IsHighest high (numbers xs)
  noNumbers : ∀ low high, extent = some (low, high) → numbers xs = [] →
    low = infinity ∧ high = -infinity

theorem extent_eq_none_iff (xs : List α) : extent xs = none ↔ xs = [] := by
  cases xs with
  | nil => simp [extent]
  | cons x rest => simp [extent]

theorem extent_eq_some {xs : List α} (some : xs ≠ []) :
    extent xs = .some (lowest xs, highest xs) := by
  rw [lowest, highest, extent, List.isEmpty_eq_false_iff.mpr some]
  rfl

variable (ordered : Ordered place) (incomparable : Incomparable α)
include ordered incomparable

/-- Seeds pass over what is not a number. -/
theorem extent_of_gaps {xs : List α} (some : xs ≠ []) (gaps : ∀ x ∈ xs, isNaN x = true) :
    extent xs = .some (infinity, -infinity) := by
  have above : lt (infinity : α) infinity = false := by
    rw [ordered.lt _ _ ordered.infinity ordered.infinity, decide_eq_false_iff_not]
    exact lt_irrefl _
  have below : lt (-infinity : α) (-infinity) = false := by
    rw [ordered.lt _ _ ordered.negInfinity ordered.negInfinity, decide_eq_false_iff_not]
    exact lt_irrefl _
  have low : reduce laneMin minNum infinity xs = infinity := by
    apply reduce_of_fixed
    · intro x member
      simp [laneMin, gaps x member]
    · simp [minNum, ordered.infinity, above]
    · intro x member
      simp [minNum, ordered.infinity, incomparable.lt x infinity (.inl (gaps x member))]
  have high : reduce laneMax maxNum (-infinity) xs = -infinity := by
    apply reduce_of_fixed
    · intro x member
      simp [laneMax, gaps x member]
    · simp [maxNum, ordered.negInfinity, below]
    · intro x member
      simp [maxNum, ordered.negInfinity, incomparable.lt (-infinity) x (.inr (gaps x member))]
  rw [extent, List.isEmpty_eq_false_iff.mpr some]
  show Option.some (reduce laneMin minNum infinity xs, reduce laneMax maxNum (-infinity) xs) = _
  rw [low, high]

theorem plainExtent (xs : List α) : PlainExtent xs (extent xs) := by
  refine ⟨extent_eq_none_iff xs, ?_, ?_⟩
  · intro low high known some
    have nonempty : xs ≠ [] := by
      rintro rfl
      exact some rfl
    rw [extent_eq_some nonempty] at known
    cases known
    exact ⟨lowest_numbers ordered incomparable some, highest_numbers ordered incomparable some⟩
  · intro low high known none
    have nonempty : xs ≠ [] := by
      rintro rfl
      cases known
    have gaps : ∀ x ∈ xs, isNaN x = true := by
      intro x member
      by_contra number
      have present := mem_numbers.mpr ⟨member, Bool.eq_false_iff.mpr number⟩
      rw [none] at present
      exact absurd present List.not_mem_nil
    rw [extent_of_gaps ordered incomparable nonempty gaps] at known
    cases known
    exact ⟨rfl, rfl⟩

end Extremes

/-- Reducing in lanes is the plain reduction for lists of every length: with exact arithmetic the
sum of all elements, of their squared distances from a mean, and of the products of two lists at the
indices of both; and for values in order, some of which may be no numbers, the extremes of the
numbers (`PlainExtent`). -/
theorem reductions_plain {α K β L : Type} [Scalar α] [Field K] [LinearOrder K] {num : K → α}
    (exact : Exact num) [Scalar β] [LinearOrder L] {place : β → L} (ordered : Ordered place)
    (incomparable : Incomparable β) :
    (∀ xs : List K, sum (xs.map num) = num xs.sum) ∧
    (∀ (xs : List K) (m : K),
      sumSqDev (xs.map num) (num m) = num (xs.map fun x => (x - m) ^ 2).sum) ∧
    (∀ xs ys : List K, dot (xs.map num) (ys.map num) =
      num (∑ k ∈ Finset.range (min xs.length ys.length), xs.getD k 0 * ys.getD k 0)) ∧
    ∀ xs : List β, PlainExtent xs (extent xs) := by
  refine ⟨exact.sum, sumSqDev_num exact, ?_, plainExtent ordered incomparable⟩
  intro xs ys
  rw [exact.dot_numbers, sum_zipWith_mul]

/-- Three left over behind one group of four; a shorter second list; a group with two gaps in it,
one more value and a gap; and nothing but gaps. -/
theorem reductions_plain_mixed :
    let xs : List ℚ := [1, -2, 4, 8, 3, 5, 1 / 2]
    let ys : List ℚ := [2, 3, -1, 1, 1]
    let data : List Float := [nan, 3, -0.0, nan, 7, nan]
    Exact Ratio.of ∧ (Ordered fun x : Float => Binary64.place x.toModel.unpack) ∧
    Incomparable Float ∧
    sum (xs.map Ratio.of) = Ratio.of (39 / 2) ∧
    sumSqDev (ys.map Ratio.of) (.of 2) = Ratio.of (0 + 1 + 9 + 1 + 1) ∧
    dot (xs.map Ratio.of) (ys.map Ratio.of) =
      Ratio.of (∑ k ∈ Finset.range 5, xs.getD k 0 * ys.getD k 0) ∧
    dot (xs.map Ratio.of) (ys.map Ratio.of) = Ratio.of 3 ∧
    (∃ low high, extent data = some (low, high) ∧ IsLowest low [3, -0.0, 7] ∧
      IsHighest high [3, -0.0, 7]) ∧
    extent [nan, (nan : Float)] = some (infinity, -infinity) := by
  intro xs ys data
  obtain ⟨sums, squares, products, extents⟩ :=
    reductions_plain Ratio.exact Binary64.ordered Binary64.incomparable
  have total : xs.sum = 39 / 2 := by norm_num [xs]
  have spread : (ys.map fun y => (y - 2) ^ 2).sum = 0 + 1 + 9 + 1 + 1 := by norm_num [ys]
  have some : extent data = .some (lowest data, highest data) :=
    extent_eq_some (List.cons_ne_nil _ _)
  have known : numbers data = [3, -0.0, 7] := by decide +kernel
  have gaps : numbers [nan, (nan : Float)] = [] := by decide +kernel
  obtain ⟨isLowest, isHighest⟩ :=
    (extents data).extremes _ _ some (known ▸ List.cons_ne_nil _ _)
  have none : extent [nan, nan] = .some (lowest [nan, nan], highest [nan, (nan : Float)]) :=
    extent_eq_some (List.cons_ne_nil _ _)
  obtain ⟨isAbove, isBelow⟩ := (extents [nan, nan]).noNumbers _ _ none gaps
  refine ⟨Ratio.exact, Binary64.ordered, Binary64.incomparable, total ▸ sums xs,
    spread ▸ squares ys 2, products xs ys, by decide +kernel,
    ⟨_, _, some, known ▸ isLowest, known ▸ isHighest⟩, ?_⟩
  rw [none, isAbove, isBelow]

end Chartist.Window
