import Chartist.Bar
import Mathlib.Algebra.Order.Field.Basic
import Mathlib.Data.List.Basic
import Mathlib.Tactic.NormNum

/-!
# Exact arithmetic

Two sets of laws for the operations of a scalar. `Comparable` asks of comparisons what every
kind of floating-point number offers: finite values are in an order, whatever the rounding is.
`Exact` asks that the finite values stand for the numbers of an ordered field, and that the
arithmetic between them gives the exact result. Beside the numbers there may be other values,
infinities or one that compares with nothing; no law says what operations do to them, nor what
square roots, logarithms or a division by zero answer.
-/

namespace Chartist

open Scalar

variable {α : Type} [Scalar α]

/-- Finite values are in an order, among them the bounds of smoothing factors. -/
structure Comparable (α : Type) [Scalar α] : Prop where
  le_refl : ∀ x : α, isFinite x = true → le x x = true
  le_of_not_lt : ∀ x y : α, isFinite x = true → isFinite y = true → lt y x = false → le x y = true
  finite_zero : isFinite (0 : α) = true
  finite_least : isFinite (0.01 : α) = true
  finite_one : isFinite (1 : α) = true
  zero_le_one : lt (1 : α) 0 = false
  least_le_one : lt (1 : α) 0.01 = false

/-- A finite value is clamped into the range. -/
theorem Comparable.within_clamp (comparable : Comparable α) {x lo hi : α}
    (finite : isFinite x = true) (finiteLo : isFinite lo = true) (finiteHi : isFinite hi = true)
    (ordered : lt hi lo = false) : within lo (clamp x lo hi) hi = true := by
  have range := comparable.le_of_not_lt lo hi finiteLo finiteHi ordered
  unfold within clamp
  by_cases low : lt x lo = true
  · -- moved up to the lower bound, which the upper one is not below
    simp only [low, if_true, ordered, Bool.false_eq_true, if_false]
    rw [comparable.le_refl lo finiteLo, range]
    rfl
  · have above := comparable.le_of_not_lt lo x finiteLo finite (Bool.eq_false_iff.mpr low)
    by_cases high : lt hi x = true
    · simp only [low, high, if_true, Bool.false_eq_true, if_false]
      rw [range, comparable.le_refl hi finiteHi]
      rfl
    · have below := comparable.le_of_not_lt x hi finite finiteHi (Bool.eq_false_iff.mpr high)
      simp only [low, high, Bool.false_eq_true, if_false]
      rw [above, below]
      rfl

variable {K : Type} [Field K] [LinearOrder K]

/-- The finite values are the numbers of a field, with its order and its exact operations. -/
structure Exact (num : K → α) : Prop where
  add : ∀ x y, num x + num y = num (x + y)
  sub : ∀ x y, num x - num y = num (x - y)
  mul : ∀ x y, num x * num y = num (x * y)
  div : ∀ x y, y ≠ 0 → num x / num y = num (x / y)
  neg : ∀ x, -num x = num (-x)
  ofDecimal : ∀ m down e, (Scalar.ofDecimal m down e : α) =
    num (if down then (m : K) / 10 ^ e else m * 10 ^ e)
  lt : ∀ x y, Scalar.lt (num x) (num y) = decide (x < y)
  le : ∀ x y, Scalar.le (num x) (num y) = decide (x ≤ y)
  isFinite : ∀ a, Scalar.isFinite a = true ↔ ∃ x, a = num x
  le_of_lt : ∀ a b : α, Scalar.lt a b = true → Scalar.le a b = true
  between : ∀ lo hi a, Scalar.le (num lo) a = true → Scalar.le a (num hi) = true →
    Scalar.isFinite a = true

/-- A value that is a number above zero. -/
def Positive (num : K → α) (x : α) : Prop := ∃ k, 0 < k ∧ x = num k

/-- The sine is positive between zero and half a turn; exponentials and cosines of numbers are
numbers, whichever. -/
structure Trigonometric (num : K → α) : Prop where
  halfTurn : ∃ p : K, (pi : α) = num p ∧ 0 < p ∧ ∀ x, 0 < x → x < p → Positive num (sin (num x))
  exp : ∀ x, isFinite (exp (num x)) = true
  cos : ∀ x, isFinite (cos (num x)) = true

/-- The sine is positive between zero and half a turn. -/
def SinePositive (num : K → α) : Prop :=
  ∃ p : K, (pi : α) = num p ∧ 0 < p ∧ ∀ x, 0 < x → x < p → Positive num (sin (num x))

/-- The sine is positive between zero and half a turn, and symmetric about the middle. -/
structure Arched (num : K → α) : Prop where
  positive : SinePositive num
  mirror : ∀ x, sin (pi - num x) = sin (num x)

/-- Numbers are told apart from what is no number, and have the absolute values of the field. -/
structure Ordinary (num : K → α) : Prop where
  isNaN : ∀ x, Scalar.isNaN (num x) = false
  abs : ∀ x, Scalar.abs (num x) = num |x|

/-- Numbers are numerically equal just if they are the same. -/
structure Discerning (num : K → α) : Prop where
  eq : ∀ x y, Scalar.eq (num x) (num y) = decide (x = y)

/-- What is no number stays none in arithmetic. -/
structure Absorbing (α : Type) [Scalar α] : Prop where
  add : ∀ a b : α, isNaN a = true ∨ isNaN b = true → isNaN (a + b) = true
  sub : ∀ a b : α, isNaN a = true ∨ isNaN b = true → isNaN (a - b) = true
  mul : ∀ a b : α, isNaN a = true ∨ isNaN b = true → isNaN (a * b) = true
  div : ∀ a b : α, isNaN a = true ∨ isNaN b = true → isNaN (a / b) = true
  neg : ∀ a : α, isNaN a = true → isNaN (-a) = true
  abs : ∀ a : α, isNaN a = true → isNaN (Scalar.abs a) = true

theorem Ordinary.isNaN_map {num : K → α} (ordinary : Ordinary num) (xs : List K) :
    ∀ x ∈ xs.map num, Scalar.isNaN x = false := by
  rw [List.forall_mem_map]
  intro x _
  exact ordinary.isNaN x

omit [Scalar α] [Field K] [LinearOrder K] in
/-- A list of numbers with a property is read off a list of them. -/
theorem exists_numbers {num : K → α} {p : K → Prop} {values : List α}
    (each : ∀ x ∈ values, ∃ k, p k ∧ x = num k) :
    ∃ ks : List K, values = ks.map num ∧ ∀ k ∈ ks, p k := by
  induction values with
  | nil => exact ⟨[], rfl, fun _ member => absurd member List.not_mem_nil⟩
  | cons x rest ih =>
      obtain ⟨⟨k, holds, rfl⟩, others⟩ := List.forall_mem_cons.mp each
      obtain ⟨ks, rfl, later⟩ := ih others
      exact ⟨k :: ks, rfl, List.forall_mem_cons.mpr ⟨holds, later⟩⟩

namespace Exact

variable {num : K → α} (exact : Exact num)
include exact

/-! ## Literals -/

theorem ofCount (n : Nat) : (Scalar.ofCount n : α) = num n := by
  rw [Scalar.ofCount, exact.ofDecimal, pow_zero, mul_one]
  rfl

theorem natLit (n : Nat) : (OfNat.ofNat n : α) = num n := exact.ofCount n

theorem zero : (0 : α) = num 0 := by
  rw [exact.natLit, Nat.cast_zero]

theorem one : (1 : α) = num 1 := by
  rw [exact.natLit, Nat.cast_one]

theorem least : (0.01 : α) = num (1 / 100) := by
  refine (exact.ofDecimal 1 true 2).trans (congrArg num ?_)
  norm_num

/-! ## Numbers -/

theorem finite (x : K) : Scalar.isFinite (num x) = true :=
  (exact.isFinite _).mpr ⟨x, rfl⟩

theorem injective {x y : K} (same : num x = num y) : x = y := by
  have order (a b : K) (same : num a = num b) : a ≤ b := by
    rw [← decide_eq_true_eq (p := a ≤ b), ← exact.le, ← same, exact.le, decide_eq_true_eq]
  exact le_antisymm (order x y same) (order y x same.symm)

theorem isPositive {x : α} : Scalar.isPositive x = true ↔ Positive num x := by
  rw [Scalar.isPositive, Bool.and_eq_true, exact.zero]
  constructor
  · rintro ⟨finite, above⟩
    obtain ⟨k, rfl⟩ := (exact.isFinite x).mp finite
    rw [exact.lt, decide_eq_true_eq] at above
    exact ⟨k, above, rfl⟩
  · rintro ⟨k, above, rfl⟩
    rw [exact.lt, decide_eq_true_eq]
    exact ⟨exact.finite k, above⟩

theorem affine (p q x : K) : num p * num x + num q = num (p * x + q) := by
  rw [exact.mul, exact.add]

/-- Finite values are a list of numbers. -/
theorem exists_map {data : List α} (finite : ∀ x ∈ data, Scalar.isFinite x = true) :
    ∃ xs : List K, data = xs.map num := by
  have each : ∀ x ∈ data, ∃ k, True ∧ x = num k := by
    intro x member
    obtain ⟨k, known⟩ := (exact.isFinite x).mp (finite x member)
    exact ⟨k, trivial, known⟩
  obtain ⟨xs, known, -⟩ := exists_numbers each
  exact ⟨xs, known⟩

theorem within (lo x hi : K) :
    Scalar.within (num lo) (num x) (num hi) = true ↔ lo ≤ x ∧ x ≤ hi := by
  rw [Scalar.within, Bool.and_eq_true, exact.le, exact.le, decide_eq_true_eq, decide_eq_true_eq]

theorem clamp (x lo hi : K) :
    Scalar.clamp (num x) (num lo) (num hi) = num (min (max x lo) hi) := by
  have raised : (if Scalar.lt (num x) (num lo) then num lo else num x : α) = num (max x lo) := by
    rw [exact.lt]
    by_cases low : x < lo
    · rw [if_pos (decide_eq_true low), max_eq_right low.le]
    · rw [if_neg (by simpa using low), max_eq_left (not_lt.mp low)]
  simp only [Scalar.clamp, raised]
  rw [exact.lt]
  by_cases high : hi < max x lo
  · rw [if_pos (decide_eq_true high), min_eq_right high.le]
  · rw [if_neg (by simpa using high), min_eq_left (not_lt.mp high)]

/-- A value between two numbers is a number. -/
theorem exists_of_within {lo hi : K} {a : α}
    (inside : Scalar.within (num lo) a (num hi) = true) : ∃ x, a = num x ∧ lo ≤ x ∧ x ≤ hi := by
  obtain ⟨above, below⟩ := Bool.and_eq_true_iff.mp inside
  obtain ⟨x, rfl⟩ := (exact.isFinite a).mp (exact.between lo hi a above below)
  exact ⟨x, rfl, (exact.within lo x hi).mp inside⟩

/-- Exact numbers can be compared. -/
theorem comparable [IsStrictOrderedRing K] : Comparable α where
  le_refl x finite := by
    obtain ⟨k, rfl⟩ := (exact.isFinite x).mp finite
    rw [exact.le, decide_eq_true_eq]
  le_of_not_lt x y finite finite' notLt := by
    obtain ⟨k, rfl⟩ := (exact.isFinite x).mp finite
    obtain ⟨l, rfl⟩ := (exact.isFinite y).mp finite'
    rw [exact.lt, decide_eq_false_iff_not, not_lt] at notLt
    rw [exact.le, decide_eq_true_eq]
    exact notLt
  finite_zero := exact.zero ▸ exact.finite 0
  finite_least := exact.least ▸ exact.finite (1 / 100)
  finite_one := exact.one ▸ exact.finite 1
  zero_le_one := by
    rw [exact.zero, exact.one, exact.lt, decide_eq_false_iff_not, not_lt]
    exact zero_le_one
  least_le_one := by
    rw [exact.least, exact.one, exact.lt, decide_eq_false_iff_not, not_lt]
    norm_num

end Exact

end Chartist
