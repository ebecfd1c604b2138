import Chartist.Filter.Linear
import Chartist.Proofs.Exact.Basic
import Mathlib.Tactic.FieldSimp
import Mathlib.Tactic.Ring

/-!
# The weights of low-pass designs

With exact arithmetic, the weights of a design are found from the radius of two conjugate poles and
the cosine of their angle (`PoleDesign.filter_numbers`). Those on the outputs are what the poles
come from, and those on the inputs are a row of Pascal's triangle, scaled so that all of them sum
to one.
-/

namespace Chartist.Filter.PoleDesign

open Scalar

variable {K : Type} [Field K]

/-! ## Poles -/

/-- The exponent of the radius of the poles. -/
def exponent (halfTurn : K) (period : Nat) : PoleDesign → K
  | .superSmoother | .butterworth2 => -((1414 : Nat) / (1000 : Nat) * halfTurn / period)
  | .butterworth3 => -halfTurn / period

/-- The angle of the poles. -/
def angle (halfTurn : K) (period : Nat) : PoleDesign → K
  | .superSmoother | .butterworth2 => (1414 : Nat) / (1000 : Nat) * halfTurn / period
  | .butterworth3 => (1738 : Nat) / (1000 : Nat) * halfTurn / period

/-! ## Weights -/

/-- The weights on the last outputs that two conjugate poles come from. -/
def twoPoles (radius cosine : K) : List K := [(2 : Nat) * radius * cosine, -radius * radius]

/-- Those that come from them and a real pole at the square of their radius. -/
def threePoles (radius cosine : K) : List K :=
  [(2 : Nat) * radius * cosine + radius * radius,
    -(radius * radius + (2 : Nat) * radius * cosine * (radius * radius)),
    radius * radius * (radius * radius)]

/-- The weights on the last outputs. -/
def feedback (radius cosine : K) : PoleDesign → List K
  | .superSmoother | .butterworth2 => twoPoles radius cosine
  | .butterworth3 => threePoles radius cosine

/-- The weights on the inputs. -/
def feedforward (radius cosine : K) : PoleDesign → List K
  | .superSmoother =>
    let first := (1 - (2 : Nat) * radius * cosine - -radius * radius) / (2 : Nat)
    [first, first]
  | .butterworth2 =>
    let first := (1 - (2 : Nat) * radius * cosine + radius * radius) / (4 : Nat)
    [first, (2 : Nat) * first, first]
  | .butterworth3 =>
    let first := (1 - (2 : Nat) * radius * cosine + radius * radius) * (1 - radius * radius) /
      (8 : Nat)
    [first, (3 : Nat) * first, (3 : Nat) * first, first]

theorem feedforward_ne_nil (radius cosine : K) (design : PoleDesign) :
    design.feedforward radius cosine ≠ [] := by
  cases design <;> exact List.cons_ne_nil _ _

variable [LinearOrder K] [IsStrictOrderedRing K]

/-- The weights sum to one over inputs and outputs together. -/
theorem sum_weights (radius cosine : K) (design : PoleDesign) :
    (design.feedforward radius cosine).sum + (design.feedback radius cosine).sum = 1 := by
  cases design <;>
  · simp only [feedforward, feedback, twoPoles, threePoles, List.sum_cons, List.sum_nil]
    push_cast
    field_simp
    ring

variable {α : Type} [Scalar α] {num : K → α} (exact : Exact num)
include exact

omit [IsStrictOrderedRing K] in
theorem thousandths (n : Nat) : (ofDecimal n true 3 : α) = num (n / (1000 : Nat)) := by
  rw [exact.ofDecimal, if_pos rfl]
  norm_num

section Poles

variable {halfTurn : K} (isPi : (pi : α) = num halfTurn) {e c : K → K}
  (isExp : ∀ x, exp (num x) = num (e x)) (isCos : ∀ x, cos (num x) = num (c x))
  {period : Nat} (positive : 0 < period)
include isPi isExp isCos positive

theorem twoPoleTerms_numbers :
    let radius := e (-((1414 : Nat) / (1000 : Nat) * halfTurn / period))
    let cosine := c ((1414 : Nat) / (1000 : Nat) * halfTurn / period)
    (LinearFilter.twoPoleTerms period : α × α) =
      (num radius, num ((2 : Nat) * radius * cosine)) := by
  have literal : (1.414 : α) = num ((1414 : Nat) / (1000 : Nat)) := thousandths exact 1414
  have places : (period : K) ≠ 0 := Nat.cast_ne_zero.mpr positive.ne'
  intro radius cosine
  simp only [LinearFilter.twoPoleTerms, literal, isPi, isExp, isCos, exact.ofCount, exact.mul,
    exact.div _ _ places, exact.neg, exact.natLit 2, radius, cosine]

/-- Where half a turn is a number, and the exponential function and the cosine answer numbers to
numbers, the weights of a design are those of its poles. -/
theorem filter_numbers (design : PoleDesign) :
    let radius := e (design.exponent halfTurn period)
    let cosine := c (design.angle halfTurn period)
    design.filter period = ⟨(design.feedforward radius cosine).map num,
      (design.feedback radius cosine).map num⟩ := by
  have divisor (n : Nat) : ((n + 1 : Nat) : K) ≠ 0 := Nat.cast_ne_zero.mpr (Nat.succ_ne_zero n)
  intro radius cosine
  cases design with
  | superSmoother =>
      have terms := twoPoleTerms_numbers exact isPi isExp isCos positive
      simp only [filter, LinearFilter.superSmoother, terms, exact.one, exact.natLit 2, exact.neg,
        exact.mul, exact.sub, exact.div _ _ (divisor 1), feedforward, feedback, twoPoles,
        List.map_cons, List.map_nil, exponent, angle, radius, cosine]
  | butterworth2 =>
      have terms := twoPoleTerms_numbers exact isPi isExp isCos positive
      simp only [filter, LinearFilter.butterworth2, terms, exact.one, exact.natLit 2,
        exact.natLit 4, exact.neg, exact.mul, exact.sub, exact.add, exact.div _ _ (divisor 3),
        feedforward, feedback, twoPoles, List.map_cons, List.map_nil, exponent, angle, radius,
        cosine]
  | butterworth3 =>
      have places : (period : K) ≠ 0 := Nat.cast_ne_zero.mpr positive.ne'
      have literal : (1.738 : α) = num ((1738 : Nat) / (1000 : Nat)) := thousandths exact 1738
      simp only [filter, LinearFilter.butterworth3, literal, isPi, isExp, isCos, exact.ofCount,
        exact.one, exact.natLit 2, exact.natLit 3, exact.natLit 8, exact.neg, exact.mul, exact.sub,
        exact.add, exact.div _ _ places, exact.div _ _ (divisor 7), feedforward, feedback,
        threePoles, List.map_cons, List.map_nil, exponent, angle, radius, cosine]

end Poles

end Chartist.Filter.PoleDesign
