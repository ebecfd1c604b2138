import Chartist.Proofs.Order.Basic

/-!
# Values sorted

The order by which values are sorted is finer than that of numbers: it is total on all values, tells
the values of one place apart and sets what is not a number at an end (`Sorting`). So a list has one
sorted form, whatever the order in which it is given (`Sorting.mergeSort_eq_of_perm`), and the
sorted form of numbers ascends (`Sorting.ascending`). Ascending lists of the same numbers agree
place by place, even where they set the values of one place differently
(`Ordered.map_place_of_perm`).
-/

namespace Chartist

open Scalar

variable {α : Type} [Scalar α] {L : Type} [LinearOrder L] {place : α → L}

namespace Ordered

variable {a b c : α} (ordered : Ordered place) (numberA : isNaN a = false) (numberB : isNaN b = false)
include ordered numberA numberB

theorem lt_iff : Scalar.lt a b = true ↔ place a < place b := by
  rw [ordered.lt a b numberA numberB, decide_eq_true_eq]

theorem le_iff : Scalar.le a b = true ↔ place a ≤ place b := by
  rw [ordered.le a b numberA numberB, decide_eq_true_eq]

theorem eq_iff : Scalar.eq a b = true ↔ place a = place b := by
  rw [ordered.eq a b numberA numberB, decide_eq_true_eq]

theorem le_of_le_of_le (numberC : isNaN c = false) (first : Scalar.le a b = true)
    (second : Scalar.le b c = true) : Scalar.le a c = true := by
  rw [ordered.le_iff numberA numberC]
  exact ((ordered.le_iff numberA numberB).mp first).trans
    ((ordered.le_iff numberB numberC).mp second)

end Ordered

/-- Sorting is by a total order of all values, which for numbers refines that of their places. -/
structure Sorting (place : α → L) : Prop where
  trans : ∀ a b c : α, before a b = true → before b c = true → before a c = true
  total : ∀ a b : α, (before a b || before b a) = true
  antisymm : ∀ a b : α, before a b = true → before b a = true → a = b
  place_le : ∀ a b : α, isNaN a = false → isNaN b = false → before a b = true → place a ≤ place b

/-- No value is above a later one. -/
def Ascending (xs : List α) : Prop := xs.Pairwise fun a b => Scalar.le a b = true

namespace Sorting

/-- The order in which values are given does not matter. -/
theorem mergeSort_eq_of_perm (sorting : Sorting place) {xs ys : List α} (same : xs.Perm ys) :
    xs.mergeSort before = ys.mergeSort before := by
  have sorted (zs : List α) := List.pairwise_mergeSort sorting.trans sorting.total zs
  have perm : (xs.mergeSort before).Perm (ys.mergeSort before) :=
    ((List.mergeSort_perm xs before).trans same).trans (List.mergeSort_perm ys before).symm
  exact perm.eq_of_pairwise (fun a b _ _ => sorting.antisymm a b) (sorted xs) (sorted ys)

theorem ascending (sorting : Sorting place) (ordered : Ordered place) {xs : List α}
    (numbers : ∀ x ∈ xs, isNaN x = false) : Ascending (xs.mergeSort before) := by
  refine (List.pairwise_mergeSort sorting.trans sorting.total xs).imp_of_mem ?_
  intro a b memberA memberB inOrder
  have numberA := numbers a (List.mem_mergeSort.mp memberA)
  have numberB := numbers b (List.mem_mergeSort.mp memberB)
  exact (ordered.le_iff numberA numberB).mpr (sorting.place_le a b numberA numberB inOrder)

end Sorting

/-- Two ascending lists of the same numbers have the same places. -/
theorem Ordered.map_place_of_perm (ordered : Ordered place) {xs ys : List α}
    (numbers : ∀ x ∈ xs, isNaN x = false) (same : xs.Perm ys) (ascendingX : Ascending xs)
    (ascendingY : Ascending ys) : xs.map place = ys.map place := by
  have places {zs : List α} (members : ∀ z ∈ zs, z ∈ xs) (ascending : Ascending zs) :
      (zs.map place).Pairwise (· ≤ ·) := by
    rw [List.pairwise_map]
    refine ascending.imp_of_mem ?_
    intro a b memberA memberB
    exact (ordered.le_iff (numbers a (members a memberA)) (numbers b (members b memberB))).mp
  exact (same.map place).eq_of_pairwise (fun _ _ _ _ => le_antisymm)
    (places (fun _ member => member) ascendingX)
    (places (fun _ member => same.mem_iff.mpr member) ascendingY)

end Chartist
