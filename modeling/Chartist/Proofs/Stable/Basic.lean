import Chartist.Proofs.Exact.Basic
import Mathlib.Analysis.SpecialFunctions.Trigonometric.Basic

/-!
# Answers of bounded size

A function on series is stable if its answers to numbers are numbers, and no more than a fixed
multiple of the largest one in size (`StableBy`). The factor may depend on the function, not on the
series or its length. Scalars stand for real numbers here, with the real exponential function and
cosine (`Analytic`).
-/

namespace Chartist

open Scalar

variable {α : Type}

/-- A real number of at most some size. -/
def Sized (num : ℝ → α) (size : ℝ) (x : α) : Prop := ∃ k, |k| ≤ size ∧ x = num k

/-- One answer for each value, and to values of at most some size, answers of at most `factor`
times that size. -/
def StableBy (num : ℝ → α) (factor : ℝ) (f : List α → List α) : Prop :=
  ∀ (data : List α) (size : ℝ), (∀ x ∈ data, Sized num size x) →
    (f data).length = data.length ∧ ∀ y ∈ f data, Sized num (factor * size) y

variable [Scalar α]

/-- Half a turn, the exponential function and the cosine are those of the real numbers. -/
structure Analytic (num : ℝ → α) : Prop where
  pi : (Scalar.pi : α) = num Real.pi
  exp : ∀ x, Scalar.exp (num x) = num (Real.exp x)
  cos : ∀ x, Scalar.cos (num x) = num (Real.cos x)

namespace Sized

variable {num : ℝ → α} {size size' : ℝ} {x y : α}

omit [Scalar α] in
theorem mono (sized : Sized num size x) (le : size ≤ size') : Sized num size' x := by
  obtain ⟨k, bound, known⟩ := sized
  exact ⟨k, bound.trans le, known⟩

omit [Scalar α] in
theorem nonneg (sized : Sized num size x) : 0 ≤ size := by
  obtain ⟨k, bound, -⟩ := sized
  exact (abs_nonneg k).trans bound

omit [Scalar α] in
theorem widen {spread : ℝ} (sized : Sized num size x) (wide : 1 ≤ spread) :
    Sized num (spread * size) x :=
  sized.mono (le_mul_of_one_le_left sized.nonneg wide)

variable (exact : Exact num)
include exact

theorem add (first : Sized num size x) (second : Sized num size' y) :
    Sized num (size + size') (x + y) := by
  obtain ⟨a, boundA, rfl⟩ := first
  obtain ⟨b, boundB, rfl⟩ := second
  refine ⟨a + b, ?_, exact.add a b⟩
  exact (abs_add_le a b).trans (add_le_add boundA boundB)

theorem scale (k : ℝ) (sized : Sized num size x) : Sized num (|k| * size) (num k * x) := by
  obtain ⟨a, bound, rfl⟩ := sized
  refine ⟨k * a, ?_, exact.mul k a⟩
  rw [abs_mul]
  exact mul_le_mul_of_nonneg_left bound (abs_nonneg k)

theorem divide {k : ℝ} (positive : 0 < k) (sized : Sized num size x) :
    Sized num (size / k) (x / num k) := by
  obtain ⟨a, bound, rfl⟩ := sized
  refine ⟨a / k, ?_, exact.div a k positive.ne'⟩
  rw [abs_div, abs_of_pos positive]
  exact div_le_div_of_nonneg_right bound positive.le

end Sized

end Chartist
