import Chartist.Proofs.Stable.Basic
import Mathlib.Analysis.SpecialFunctions.Log.Basic
import Mathlib.Analysis.SpecialFunctions.Pow.Real

/-!
# Real numbers as scalars

The instance on which statements about real numbers are tried. Every scalar is a real number
(`Quantity.exact`), with the functions of analysis (`Quantity.analytic`); division by zero answers
zero, and there is nothing above every number.
-/

namespace Chartist

/-- A scalar that is a real number. -/
structure Quantity where
  value : ℝ

namespace Quantity

def of (x : ℝ) : Quantity := ⟨x⟩

noncomputable section

/-- No text tells two real numbers apart. -/
instance : Scalar Quantity where
  add x y := of (x.value + y.value)
  sub x y := of (x.value - y.value)
  mul x y := of (x.value * y.value)
  div x y := of (x.value / y.value)
  neg x := of (-x.value)
  ofDecimal m down e := of (if down then (m : ℝ) / 10 ^ e else m * 10 ^ e)
  abs x := of |x.value|
  sqrt x := of x.value.sqrt
  sin x := of (Real.sin x.value)
  cos x := of (Real.cos x.value)
  exp x := of (Real.exp x.value)
  log x := of (Real.log x.value)
  lt x y := decide (x.value < y.value)
  le x y := decide (x.value ≤ y.value)
  eq x y := decide (x.value = y.value)
  isNaN _ := false
  isFinite _ := true
  before x y := decide (x.value ≤ y.value)
  infinity := of 0
  nan := of 0
  pi := of Real.pi
  logTwo := of (Real.log (1 + 1))
  text _ := "number"

/-- Real arithmetic is exact. -/
theorem exact : Exact of where
  add _ _ := rfl
  sub _ _ := rfl
  mul _ _ := rfl
  div _ _ _ := rfl
  neg _ := rfl
  ofDecimal _ _ _ := rfl
  lt _ _ := rfl
  le _ _ := rfl
  isFinite a := ⟨fun _ => ⟨a.value, rfl⟩, fun _ => rfl⟩
  le_of_lt a b less := decide_eq_true (of_decide_eq_true (p := a.value < b.value) less).le
  between _ _ _ _ _ := rfl

theorem ordinary : Ordinary of where
  isNaN _ := rfl
  abs _ := rfl

theorem analytic : Analytic of where
  pi := rfl
  exp _ := rfl
  cos _ := rfl

end

end Quantity

end Chartist
