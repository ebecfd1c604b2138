import Chartist.Proofs.Exact.Basic
import Chartist.Proofs.Order.Basic
import Chartist.Source
import Mathlib.Algebra.Order.Ring.Rat
import Mathlib.Logic.Encodable.Basic
import Mathlib.Logic.Equiv.List
import Mathlib.Tactic.Linarith

/-!
# Rational numbers as scalars

The instance on which statements about exact arithmetic are tried. A scalar is a rational number
or nothing, which a division by zero answers and every operation passes on (`Ratio.exact`). The
functions that leave the rational numbers are replaced by rational approximations: the sine and
the cosine by quotients of parabolas that agree with them at their zeros and peaks.
-/

namespace Chartist

/-- A scalar that is a rational number, or none. -/
structure Ratio where
  value : Option ℚ
  deriving DecidableEq

namespace Ratio

def of (x : ℚ) : Ratio := ⟨some x⟩

/-- A function on numbers, which may have no answer. -/
def lift (f : ℚ → Option ℚ) (x : Ratio) : Ratio := ⟨x.value.bind f⟩

/-- A function on two numbers, which may have no answer. -/
def lift₂ (f : ℚ → ℚ → Option ℚ) (x y : Ratio) : Ratio :=
  ⟨x.value.bind fun a => y.value.bind (f a)⟩

/-- A comparison of two numbers, which fails where one of them is missing. -/
def holds (p : ℚ → ℚ → Bool) (x y : Ratio) : Bool :=
  ((x.value.bind fun a => y.value.map (p a)).getD false)

instance : Add Ratio := ⟨lift₂ fun a b => some (a + b)⟩

instance : Sub Ratio := ⟨lift₂ fun a b => some (a - b)⟩

instance : Mul Ratio := ⟨lift₂ fun a b => some (a * b)⟩

instance : Div Ratio := ⟨lift₂ fun a b => if b = 0 then none else some (a / b)⟩

instance : Neg Ratio := ⟨lift fun a => some (-a)⟩

/-- Between the zeros of the sine. -/
def halfTurn : ℚ := 22 / 7

/-- The parabola quotient that is 0 at 0 and at half a turn, and 1 in the middle. -/
def sine (x : ℚ) : ℚ := 16 * (x * (halfTurn - x)) / (5 * halfTurn ^ 2 - 4 * (x * (halfTurn - x)))

/-- The parabola quotient that is 1 at 0 and 0 at a quarter turn. -/
def cosine (x : ℚ) : ℚ := (halfTurn ^ 2 - 4 * x ^ 2) / (halfTurn ^ 2 + x ^ 2)

/-- The quotient of quadratic polynomials nearest to the exponential function at 0. -/
def exponential (x : ℚ) : ℚ := (12 + 6 * x + x ^ 2) / (12 - 6 * x + x ^ 2)

/-- The quotient of linear polynomials nearest to the logarithm at 1. -/
def logarithm (x : ℚ) : Option ℚ := if 0 < x then some (2 * (x - 1) / (x + 1)) else none

/-- The root of a quotient, its numerator cut to a whole number. -/
def root (x : ℚ) : Option ℚ :=
  if 0 ≤ x then some ((x.num.toNat * x.den).sqrt / x.den : ℚ) else none

/-- What is no number stands after the numbers, and prints as one. -/
instance : Scalar Ratio where
  ofDecimal m down e := of (if down then (m : ℚ) / 10 ^ e else m * 10 ^ e)
  abs := lift fun a => some |a|
  sqrt := lift root
  sin := lift fun a => some (sine a)
  cos := lift fun a => some (cosine a)
  exp := lift fun a => some (exponential a)
  log := lift logarithm
  lt := holds fun a b => a < b
  le := holds fun a b => a ≤ b
  eq := holds fun a b => a = b
  isNaN x := x.value.isNone
  isFinite x := x.value.isSome
  before x y := y.value.isNone || holds (fun a b => a ≤ b) x y
  infinity := ⟨none⟩
  nan := ⟨none⟩
  pi := of halfTurn
  logTwo := of (2 / 3)
  text x := (x.value.map fun a => s!"{a.num}/{a.den}").getD "NaN"

instance : Fingerprint Ratio where
  bits x := Encodable.encode (x.value.map fun a => (a.num, a.den))
  hash words := Encodable.encode words

/-- Rational arithmetic is exact. -/
theorem exact : Exact of where
  add _ _ := rfl
  sub _ _ := rfl
  mul _ _ := rfl
  div _ _ nonzero := congrArg Ratio.mk (if_neg nonzero)
  neg _ := rfl
  ofDecimal _ _ _ := rfl
  lt _ _ := rfl
  le _ _ := rfl
  isFinite a := by
    constructor
    · intro finite
      obtain ⟨x, known⟩ := Option.isSome_iff_exists.mp finite
      exact ⟨x, congrArg Ratio.mk known⟩
    · rintro ⟨x, rfl⟩
      rfl
  le_of_lt a b less := by
    rcases a with ⟨_ | x⟩
    · exact less
    · rcases b with ⟨_ | y⟩
      · exact less
      · exact decide_eq_true (of_decide_eq_true (p := x < y) less).le
  between lo hi a above _ := by
    -- what is missing is not above anything
    rcases a with ⟨_ | x⟩
    · exact absurd above Bool.false_ne_true
    · rfl

theorem ordinary : Ordinary of where
  isNaN _ := rfl
  abs _ := rfl

theorem discerning : Discerning of where
  eq _ _ := rfl

/-- What is missing compares with nothing. -/
theorem incomparable : Incomparable Ratio := by
  have fails (p : ℚ → ℚ → Bool) (a b : Ratio)
      (missing : Scalar.isNaN a = true ∨ Scalar.isNaN b = true) : holds p a b = false := by
    rcases a with ⟨_ | x⟩
    · rfl
    · rcases b with ⟨_ | y⟩
      · rfl
      · rcases missing with first | second
        · cases first
        · cases second
  exact ⟨fails _, fails _, fails _⟩

/-- What is missing stays missing. -/
theorem absorbing : Absorbing Ratio := by
  have lift₂_missing (f : ℚ → ℚ → Option ℚ) (a b : Ratio)
      (missing : Scalar.isNaN a = true ∨ Scalar.isNaN b = true) :
      Scalar.isNaN (lift₂ f a b) = true := by
    rcases a with ⟨_ | x⟩
    · rfl
    · rcases b with ⟨_ | y⟩
      · rfl
      · rcases missing with first | second
        · cases first
        · cases second
  have lift_missing (f : ℚ → Option ℚ) (a : Ratio) (missing : Scalar.isNaN a = true) :
      Scalar.isNaN (lift f a) = true := by
    rcases a with ⟨_ | x⟩
    · rfl
    · cases missing
  exact ⟨lift₂_missing _, lift₂_missing _, lift₂_missing _, lift₂_missing _, lift_missing _,
    lift_missing _⟩

theorem trigonometric : Trigonometric of where
  halfTurn := by
    refine ⟨halfTurn, rfl, by norm_num [halfTurn], ?_⟩
    intro x above below
    have inside : 0 < x * (halfTurn - x) := mul_pos above (sub_pos.mpr below)
    have height : 0 ≤ (halfTurn - 2 * x) ^ 2 := sq_nonneg _
    have square : 0 < halfTurn ^ 2 := by norm_num [halfTurn]
    refine ⟨sine x, div_pos (by linarith) ?_, rfl⟩
    linarith
  exp _ := rfl
  cos _ := rfl

end Ratio

end Chartist
