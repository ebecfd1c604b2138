import Chartist.Window.Lanes
import Mathlib.Order.Lattice
import Mathlib.Order.OrderDual

/-!
# Numbers in order

Every value but one that is not a number has a place in a linear order, and comparisons of numbers
compare their places (`Ordered`). Two values may share a place, as the two zeros of binary64 do;
what is said of such values is said up to numeric equality. Nothing is asked of the arithmetic.

A function that picks one of two numbers *joins* them if its answer is at most what both are at
most (`Joins`). Both kinds of maxima do, and both kinds of minima in the order turned round.
-/

namespace Chartist

open Scalar

variable {α : Type} [Scalar α] {L : Type} [LinearOrder L]

/-- Numbers compare as their places do, and infinity and its negative are the numbers in the last
and the first place. -/
structure Ordered (place : α → L) : Prop where
  lt : ∀ a b, isNaN a = false → isNaN b = false → Scalar.lt a b = decide (place a < place b)
  le : ∀ a b, isNaN a = false → isNaN b = false → Scalar.le a b = decide (place a ≤ place b)
  eq : ∀ a b, isNaN a = false → isNaN b = false → Scalar.eq a b = decide (place a = place b)
  infinity : isNaN (Scalar.infinity : α) = false
  negInfinity : isNaN (-Scalar.infinity : α) = false
  le_infinity : ∀ a, isNaN a = false → place a ≤ place Scalar.infinity
  negInfinity_le : ∀ a, isNaN a = false → place (-Scalar.infinity) ≤ place a

/-- A value that is not a number compares with nothing. -/
structure Incomparable (α : Type) [Scalar α] : Prop where
  lt : ∀ a b : α, isNaN a = true ∨ isNaN b = true → Scalar.lt a b = false
  le : ∀ a b : α, isNaN a = true ∨ isNaN b = true → Scalar.le a b = false
  eq : ∀ a b : α, isNaN a = true ∨ isNaN b = true → Scalar.eq a b = false

/-- `x` is numerically equal to one of the values, and none of them is above it. -/
structure IsHighest (x : α) (xs : List α) : Prop where
  attained : ∃ y ∈ xs, Scalar.eq x y = true
  bound : ∀ y ∈ xs, Scalar.le y x = true

/-- `x` is numerically equal to one of the values, and none of them is below it. -/
structure IsLowest (x : α) (xs : List α) : Prop where
  attained : ∃ y ∈ xs, Scalar.eq x y = true
  bound : ∀ y ∈ xs, Scalar.le x y = true

/-- The answer to two values with a property has the property too, and is at most what both of them
are at most. -/
def JoinsOn (p : α → Prop) (place : α → L) (pick : α → α → α) : Prop :=
  ∀ a b, p a → p b → p (pick a b) ∧ ∀ u, place (pick a b) ≤ u ↔ place a ≤ u ∧ place b ≤ u

/-- The answer to two numbers is a number, at most what both of them are at most. -/
def Joins (place : α → L) (pick : α → α → α) : Prop :=
  ∀ a b, isNaN a = false → isNaN b = false →
    isNaN (pick a b) = false ∧ ∀ u, place (pick a b) ≤ u ↔ place a ≤ u ∧ place b ≤ u

omit [Scalar α] in
/-- The arguments of a function that joins may change their places. -/
theorem JoinsOn.flip {p : α → Prop} {place : α → L} {pick : α → α → α}
    (joins : JoinsOn p place pick) : JoinsOn p place fun a b => pick b a := by
  intro a b holdsA holdsB
  obtain ⟨holds, joined⟩ := joins b a holdsB holdsA
  refine ⟨holds, ?_⟩
  intro u
  rw [joined, and_comm]

/-- Whichever of two numbers in one place is answered, a function that answers the higher of two
numbers joins them. -/
theorem Joins.of_cases {place : α → L} {pick : α → α → α}
    (higher : ∀ a b, isNaN a = false → isNaN b = false →
      pick a b = a ∧ place b ≤ place a ∨ pick a b = b ∧ place a ≤ place b) :
    Joins place pick := by
  intro a b numberA numberB
  rcases higher a b numberA numberB with ⟨first, above⟩ | ⟨second, above⟩
  · rw [first]
    refine ⟨numberA, ?_⟩
    intro u
    constructor
    · intro below
      exact ⟨below, above.trans below⟩
    · intro both
      exact both.1
  · rw [second]
    refine ⟨numberB, ?_⟩
    intro u
    constructor
    · intro below
      exact ⟨above.trans below, below⟩
    · intro both
      exact both.2

/-- What compares is a number on both sides, if the comparison fails for anything else. -/
theorem numbers_of_compares {compares : α → α → Bool}
    (fails : ∀ a b : α, isNaN a = true ∨ isNaN b = true → compares a b = false) {a b : α}
    (holds : compares a b = true) : isNaN a = false ∧ isNaN b = false := by
  rw [← Bool.not_eq_true, ← Bool.not_eq_true, ← not_or]
  intro missing
  rw [fails a b missing] at holds
  cases holds

namespace Ordered

variable {place : α → L} (ordered : Ordered place)
include ordered

theorem isHighest {x : α} {xs : List α} (number : isNaN x = false)
    (numbers : ∀ y ∈ xs, isNaN y = false) (attained : ∃ y ∈ xs, place x = place y)
    (bound : ∀ y ∈ xs, place y ≤ place x) : IsHighest x xs where
  attained := by
    obtain ⟨y, member, same⟩ := attained
    refine ⟨y, member, ?_⟩
    rw [ordered.eq x y number (numbers y member), decide_eq_true_eq]
    exact same
  bound y member := by
    rw [ordered.le y x (numbers y member) number, decide_eq_true_eq]
    exact bound y member

theorem isLowest {x : α} {xs : List α} (number : isNaN x = false)
    (numbers : ∀ y ∈ xs, isNaN y = false) (attained : ∃ y ∈ xs, place x = place y)
    (bound : ∀ y ∈ xs, place x ≤ place y) : IsLowest x xs where
  attained := by
    obtain ⟨y, member, same⟩ := attained
    refine ⟨y, member, ?_⟩
    rw [ordered.eq x y number (numbers y member), decide_eq_true_eq]
    exact same
  bound y member := by
    rw [ordered.le x y number (numbers y member), decide_eq_true_eq]
    exact bound y member

theorem joins_maxNum : Joins place (maxNum : α → α → α) := by
  apply Joins.of_cases
  intro a b numberA numberB
  have compared := ordered.lt a b numberA numberB
  by_cases less : place a < place b
  · right
    simp [maxNum, numberA, compared, less, less.le]
  · left
    simp [maxNum, numberA, compared, less, not_lt.mp less]

theorem joins_laneMax : Joins place (Window.laneMax : α → α → α) := by
  apply Joins.of_cases
  intro a b numberA numberB
  have compared := ordered.lt b a numberB numberA
  by_cases less : place b < place a
  · left
    simp [Window.laneMax, numberB, compared, less, less.le]
  · right
    simp [Window.laneMax, numberB, compared, less, not_lt.mp less]

theorem joins_minNum : Joins (fun x => OrderDual.toDual (place x)) (minNum : α → α → α) := by
  apply Joins.of_cases
  intro a b numberA numberB
  have compared := ordered.lt b a numberB numberA
  by_cases less : place b < place a
  · right
    simp [minNum, numberA, compared, less, less.le]
  · left
    simp [minNum, numberA, compared, less, not_lt.mp less]

theorem joins_laneMin :
    Joins (fun x => OrderDual.toDual (place x)) (Window.laneMin : α → α → α) := by
  apply Joins.of_cases
  intro a b numberA numberB
  have compared := ordered.lt a b numberA numberB
  by_cases less : place a < place b
  · left
    simp [Window.laneMin, numberB, compared, less, less.le]
  · right
    simp [Window.laneMin, numberB, compared, less, not_lt.mp less]

end Ordered

end Chartist
