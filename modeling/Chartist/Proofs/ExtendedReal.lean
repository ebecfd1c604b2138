import Chartist.Proofs.Order.Basic
import Chartist.Proofs.Real
import Mathlib.Data.EReal.Inv

/-!
# Real numbers with infinities as scalars

The instance on which statements about real numbers are tried where the infinities take part. Every
scalar has a place on the extended line; arithmetic is that of the extended real numbers, and the
functions of analysis see an infinity as zero. Nothing is missing. Literals and constants are those of
real numbers alone.
-/

namespace Chartist

/-- A scalar that is a real number or an infinity. -/
structure ExtendedReal where
  value : EReal

namespace ExtendedReal

noncomputable section

def of (x : ℝ) : ExtendedReal := ⟨x⟩

/-- A function of analysis. -/
def lift (f : ℝ → ℝ) (x : ExtendedReal) : ExtendedReal := of (f x.value.toReal)

/-- No text tells two numbers apart. -/
instance : Scalar ExtendedReal where
  add x y := ⟨x.value + y.value⟩
  sub x y := ⟨x.value - y.value⟩
  mul x y := ⟨x.value * y.value⟩
  div x y := ⟨x.value / y.value⟩
  neg x := ⟨-x.value⟩
  ofDecimal m down e := of (Scalar.ofDecimal m down e : Quantity).value
  abs := lift fun x => |x|
  sqrt := lift Real.sqrt
  sin := lift Real.sin
  cos := lift Real.cos
  exp := lift Real.exp
  log := lift Real.log
  lt x y := decide (x.value < y.value)
  le x y := decide (x.value ≤ y.value)
  eq x y := decide (x.value = y.value)
  isNaN _ := false
  isFinite x := decide (x.value ≠ ⊤ ∧ x.value ≠ ⊥)
  before x y := decide (x.value ≤ y.value)
  infinity := ⟨⊤⟩
  nan := of 0
  pi := of Real.pi
  logTwo := of (Scalar.logTwo : Quantity).value
  text _ := "number"

/-- Between real numbers, arithmetic is exact. -/
theorem exact : Exact of where
  add _ _ := rfl
  sub x y := congrArg mk (EReal.coe_sub x y).symm
  mul x y := congrArg mk (EReal.coe_mul x y).symm
  div x y _ := congrArg mk (EReal.coe_div x y).symm
  neg x := congrArg mk (EReal.coe_neg x).symm
  ofDecimal _ _ _ := rfl
  lt x y := decide_eq_decide.mpr EReal.coe_lt_coe_iff
  le x y := decide_eq_decide.mpr EReal.coe_le_coe_iff
  isFinite a := by
    constructor
    · intro finite
      obtain ⟨notTop, notBottom⟩ := of_decide_eq_true finite
      exact ⟨a.value.toReal, congrArg mk (EReal.coe_toReal notTop notBottom).symm⟩
    · rintro ⟨x, rfl⟩
      exact decide_eq_true ⟨EReal.coe_ne_top x, EReal.coe_ne_bot x⟩
  le_of_lt a b less := decide_eq_true (of_decide_eq_true (p := a.value < b.value) less).le
  between lo hi a above below := by
    have low : (lo : EReal) ≤ a.value := of_decide_eq_true above
    have high : a.value ≤ (hi : EReal) := of_decide_eq_true below
    exact decide_eq_true ⟨(high.trans_lt (EReal.coe_lt_top hi)).ne,
      ((EReal.bot_lt_coe lo).trans_le low).ne'⟩

theorem ordinary : Ordinary of where
  isNaN _ := rfl
  abs _ := rfl

theorem ordered : Ordered value where
  lt _ _ _ _ := rfl
  le _ _ _ _ := rfl
  eq _ _ _ _ := rfl
  infinity := rfl
  negInfinity := rfl
  le_infinity _ _ := le_top
  negInfinity_le a _ := by
    show -⊤ ≤ a.value
    rw [EReal.neg_top]
    exact bot_le

theorem incomparable : Incomparable ExtendedReal where
  lt _ _ gap := absurd gap (by rintro (gap | gap) <;> cases gap)
  le _ _ gap := absurd gap (by rintro (gap | gap) <;> cases gap)
  eq _ _ gap := absurd gap (by rintro (gap | gap) <;> cases gap)

end

end ExtendedReal

end Chartist
