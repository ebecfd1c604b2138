import Chartist.Proofs.Order.Basic
import Chartist.Scalar.Binary64
import Mathlib.Data.Int.Order.Basic
import Mathlib.Data.Prod.Lex

/-!
# Binary64 numbers are in order

The place of a binary64 number: first whether it is infinite, finite or zero, with its sign, then
its exponent, then its mantissa. Both zeros have one place. Comparing such numbers is comparing
their places (`compare_place`), so the laws of order hold of the numbers on which the library runs
(`Binary64.ordered`).
-/

namespace Chartist.Binary64

open Float.Model Scalar

/-- The place of a number; what is not a number has no use for one. -/
def place : UnpackedFloat → ℤ ×ₗ ℤ ×ₗ ℤ
  | .notANumber | .zero _ => toLex (0, toLex (0, 0))
  | .infinity .positive => toLex (2, toLex (0, 0))
  | .infinity .negative => toLex (-2, toLex (0, 0))
  | .finite .positive mantissa exponent _ => toLex (1, toLex (exponent, (mantissa : ℤ)))
  | .finite .negative mantissa exponent _ => toLex (-1, toLex (-exponent, -(mantissa : ℤ)))

theorem compare_neg (a b : ℤ) : compare (-a) (-b) = (compare a b).swap := by
  rw [Int.compare_swap]
  simp only [Int.compare_eq_ite_lt, Int.neg_lt_neg_iff]

theorem compare_cast (m n : ℕ) : compare (m : ℤ) (n : ℤ) = compare m n := by
  simp only [Int.compare_eq_ite_lt, Nat.compare_eq_ite_lt, Int.ofNat_lt]

/-- Where the signs or kinds differ, the first part of the place decides. -/
theorem compare_place {a b : UnpackedFloat} (numberA : a.isNaN = false)
    (numberB : b.isNaN = false) : a.compare b = some (compare (place a) (place b)) := by
  cases a with
  | notANumber => cases numberA
  | zero s =>
      cases b with
      | notANumber => cases numberB
      | zero t => rfl
      | infinity t => cases t <;> rfl
      | finite t n f pos => cases t <;> rfl
  | infinity s =>
      cases b with
      | notANumber => cases numberB
      | zero t => cases s <;> rfl
      | infinity t => cases s <;> cases t <;> rfl
      | finite t n f pos => cases s <;> cases t <;> rfl
  | finite s m e pos =>
      cases b with
      | notANumber => cases numberB
      | zero t => cases s <;> rfl
      | infinity t => cases s <;> cases t <;> rfl
      | finite t n f pos' =>
          cases s with
          | positive =>
              cases t with
              | negative => rfl
              | positive =>
                  show some ((compare e f).then (compare m n)) =
                    some ((compare e f).then (compare (m : ℤ) (n : ℤ)))
                  rw [compare_cast]
          | negative =>
              cases t with
              | positive => rfl
              | negative =>
                  show some ((compare e f).then (compare m n)).swap =
                    some ((compare (-e) (-f)).then (compare (-(m : ℤ)) (-(n : ℤ))))
                  rw [compare_neg, compare_neg, compare_cast, Ordering.swap_then]

/-- A comparison with what is not a number has no result. -/
theorem compare_missing {a b : UnpackedFloat} (missing : a.isNaN = true ∨ b.isNaN = true) :
    a.compare b = none := by
  cases a with
  | notANumber => cases b <;> rfl
  | zero s | infinity s | finite s m e pos =>
      cases b with
      | notANumber => rfl
      | zero t | infinity t | finite t n f pos' =>
          rcases missing with first | second
          · cases first
          · cases second

/-- Infinity stands after every other place. -/
theorem place_le_infinity (a : UnpackedFloat) : place a ≤ place (.infinity .positive) := by
  apply Prod.Lex.toLex_le_toLex.mpr
  cases a with
  | notANumber => exact .inl (by decide : (0 : ℤ) < 2)
  | zero s => exact .inl (by decide : (0 : ℤ) < 2)
  | infinity s =>
      cases s with
      | positive => exact .inr ⟨rfl, le_rfl⟩
      | negative => exact .inl (by decide : (-2 : ℤ) < 2)
  | finite s m e pos =>
      cases s with
      | positive => exact .inl (by decide : (1 : ℤ) < 2)
      | negative => exact .inl (by decide : (-1 : ℤ) < 2)

theorem negInfinity_le_place (a : UnpackedFloat) : place (.infinity .negative) ≤ place a := by
  apply Prod.Lex.toLex_le_toLex.mpr
  cases a with
  | notANumber => exact .inl (by decide : (-2 : ℤ) < 0)
  | zero s => exact .inl (by decide : (-2 : ℤ) < 0)
  | infinity s =>
      cases s with
      | positive => exact .inl (by decide : (-2 : ℤ) < 2)
      | negative => exact .inr ⟨rfl, le_rfl⟩
  | finite s m e pos =>
      cases s with
      | positive => exact .inl (by decide : (-2 : ℤ) < 1)
      | negative => exact .inl (by decide : (-2 : ℤ) < -1)

theorem ordered : Ordered fun x : Float => place x.toModel.unpack where
  lt a b numberA numberB := by
    show decide (a.toModel < b.toModel) = _
    apply decide_eq_decide.mpr
    show (a.toModel.unpack.compare b.toModel.unpack == some .lt) = true ↔ _
    rw [compare_place numberA numberB, beq_iff_eq, Option.some_inj, compare_lt_iff_lt]
  le a b numberA numberB := by
    show decide (a.toModel ≤ b.toModel) = _
    apply decide_eq_decide.mpr
    show (a.toModel.unpack.compare b.toModel.unpack).any (·.isLE) = true ↔ _
    rw [compare_place numberA numberB, Option.any_some, Ordering.isLE_iff_ne_gt]
    exact compare_le_iff_le
  eq a b numberA numberB := by
    show (a.toModel.unpack.compare b.toModel.unpack == some .eq) = _
    rw [compare_place numberA numberB, Bool.eq_iff_iff, beq_iff_eq, Option.some_inj,
      compare_eq_iff_eq, decide_eq_true_eq]
  infinity := by decide
  negInfinity := by decide
  le_infinity a _ := by
    have above : (Scalar.infinity : Float).toModel.unpack = .infinity .positive := by rfl
    rw [above]
    exact place_le_infinity _
  negInfinity_le a _ := by
    have below : (-Scalar.infinity : Float).toModel.unpack = .infinity .negative := by rfl
    rw [below]
    exact negInfinity_le_place _

theorem incomparable : Incomparable Float where
  lt a b missing := by
    show decide (a.toModel.unpack.compare b.toModel.unpack == some .lt) = false
    rw [compare_missing missing]
    rfl
  le a b missing := by
    show decide ((a.toModel.unpack.compare b.toModel.unpack).any (·.isLE) = true) = false
    rw [compare_missing missing]
    rfl
  eq a b missing := by
    show (a.toModel.unpack.compare b.toModel.unpack == some .eq) = false
    rw [compare_missing missing]
    rfl

end Chartist.Binary64
