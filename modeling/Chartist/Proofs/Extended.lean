import Chartist.Proofs.Order.Sorted
import Chartist.Proofs.Ratio
import Mathlib.Order.WithBot

/-!
# Rational numbers with infinities as scalars

The instance on which statements about exact arithmetic are tried where infinities take part. A
scalar is a rational number, one of two infinities or missing. Arithmetic is that of rational
numbers, and has no answer for anything else; comparisons go by the place on the extended line.
-/

namespace Chartist

/-- A rational number, an infinity of either sign, or neither. -/
inductive Extended where
  | number (x : ℚ)
  | infinite (negative : Bool)
  | missing
  deriving DecidableEq

namespace Extended

/-- What arithmetic sees of a value. -/
def ratio : Extended → Ratio
  | number x => .of x
  | infinite _ | missing => ⟨none⟩

def ofRatio (r : Ratio) : Extended := (r.value.map number).getD missing

def isMissing : Extended → Bool
  | missing => true
  | _ => false

/-- The place on the extended line; what is missing has no use for one. -/
def place : Extended → WithBot (WithTop ℚ)
  | number x => ((x : WithTop ℚ) : WithBot (WithTop ℚ))
  | infinite false => ((⊤ : WithTop ℚ) : WithBot (WithTop ℚ))
  | infinite true | missing => ⊥

/-- A comparison of places, which fails where a value is missing. -/
def compares (p : WithBot (WithTop ℚ) → WithBot (WithTop ℚ) → Bool) (x y : Extended) : Bool :=
  !x.isMissing && !y.isMissing && p x.place y.place

def negate : Extended → Extended
  | infinite negative => infinite !negative
  | x => ofRatio (-x.ratio)

/-- What is missing stands after the others, and an infinity prints as a missing value. -/
instance : Scalar Extended where
  add x y := ofRatio (x.ratio + y.ratio)
  sub x y := ofRatio (x.ratio - y.ratio)
  mul x y := ofRatio (x.ratio * y.ratio)
  div x y := ofRatio (x.ratio / y.ratio)
  neg := negate
  ofDecimal m down e := ofRatio (Scalar.ofDecimal m down e)
  abs x := ofRatio (Scalar.abs x.ratio)
  sqrt x := ofRatio (Scalar.sqrt x.ratio)
  sin x := ofRatio (Scalar.sin x.ratio)
  cos x := ofRatio (Scalar.cos x.ratio)
  exp x := ofRatio (Scalar.exp x.ratio)
  log x := ofRatio (Scalar.log x.ratio)
  lt := compares fun a b => a < b
  le := compares fun a b => a ≤ b
  eq := compares fun a b => a = b
  isNaN := isMissing
  isFinite x := Scalar.isFinite x.ratio
  before x y := y.isMissing || compares (fun a b => a ≤ b) x y
  infinity := infinite false
  nan := missing
  pi := ofRatio Scalar.pi
  logTwo := ofRatio Scalar.logTwo
  text x := Scalar.text x.ratio

theorem compares_of_numbers (p : WithBot (WithTop ℚ) → WithBot (WithTop ℚ) → Bool) {x y : Extended}
    (numberX : x.isMissing = false) (numberY : y.isMissing = false) :
    compares p x y = p x.place y.place := by
  rw [compares, numberX, numberY]
  rfl

theorem holds_of_compares {p : WithBot (WithTop ℚ) → WithBot (WithTop ℚ) → Bool} {x y : Extended}
    (holds : compares p x y = true) : p x.place y.place = true :=
  (Bool.and_eq_true_iff.mp holds).2

theorem compares_missing (p : WithBot (WithTop ℚ) → WithBot (WithTop ℚ) → Bool) {x y : Extended}
    (gap : x.isMissing = true ∨ y.isMissing = true) : compares p x y = false := by
  rcases gap with gap | gap <;> simp [compares, gap]

/-- Between numbers, arithmetic is exact. -/
theorem exact : Exact number where
  add x y := congrArg ofRatio (Ratio.exact.add x y)
  sub x y := congrArg ofRatio (Ratio.exact.sub x y)
  mul x y := congrArg ofRatio (Ratio.exact.mul x y)
  div x y nonzero := congrArg ofRatio (Ratio.exact.div x y nonzero)
  neg x := congrArg ofRatio (Ratio.exact.neg x)
  ofDecimal m down e := congrArg ofRatio (Ratio.exact.ofDecimal m down e)
  lt x y := by
    show compares _ (number x) (number y) = _
    rw [compares_of_numbers _ rfl rfl]
    simp [place]
  le x y := by
    show compares _ (number x) (number y) = _
    rw [compares_of_numbers _ rfl rfl]
    simp [place]
  isFinite a := by
    constructor
    · intro finite
      cases a with
      | number x => exact ⟨x, rfl⟩
      | infinite | missing => cases finite
    · rintro ⟨x, rfl⟩
      rfl
  le_of_lt a b less := by
    have before : a.place < b.place := of_decide_eq_true (holds_of_compares less)
    have numbers : (!a.isMissing && !b.isMissing) = true := (Bool.and_eq_true_iff.mp less).1
    exact Bool.and_eq_true_iff.mpr ⟨numbers, decide_eq_true before.le⟩
  between lo hi a above below := by
    cases a with
    | number x => rfl
    | infinite negative =>
        -- neither infinity is between two numbers
        cases negative with
        | true =>
            have low : (number lo).place ≤ ⊥ := of_decide_eq_true (holds_of_compares above)
            simp [place] at low
        | false =>
            have high : ((⊤ : WithTop ℚ) : WithBot (WithTop ℚ)) ≤ (number hi).place :=
              of_decide_eq_true (holds_of_compares below)
            simp [place] at high
    | missing => cases above

theorem ordinary : Ordinary number where
  isNaN _ := rfl
  abs x := congrArg ofRatio (Ratio.ordinary.abs x)

theorem ordered : Ordered place where
  lt _ _ numberA numberB := compares_of_numbers _ numberA numberB
  le _ _ numberA numberB := compares_of_numbers _ numberA numberB
  eq _ _ numberA numberB := compares_of_numbers _ numberA numberB
  infinity := rfl
  negInfinity := rfl
  le_infinity a _ := by
    show a.place ≤ ((⊤ : WithTop ℚ) : WithBot (WithTop ℚ))
    cases a with
    | number x => simp [place]
    | infinite negative => cases negative <;> simp [place]
    | missing => simp [place]
  negInfinity_le _ _ := bot_le

theorem before_iff (x y : Extended) :
    Scalar.before x y = true ↔
      y.isMissing = true ∨ x.isMissing = false ∧ y.isMissing = false ∧ x.place ≤ y.place := by
  show (y.isMissing || compares (fun a b => a ≤ b) x y) = true ↔ _
  simp only [compares, Bool.or_eq_true, Bool.and_eq_true, Bool.not_eq_true', decide_eq_true_eq,
    and_assoc]

theorem place_injective {x y : Extended} (numberX : x.isMissing = false)
    (numberY : y.isMissing = false) (same : x.place = y.place) : x = y := by
  cases x with
  | missing => cases numberX
  | number x =>
      cases y with
      | missing => cases numberY
      | number y => simpa [place] using same
      | infinite t => cases t <;> simp [place] at same
  | infinite s =>
      cases y with
      | missing => cases numberY
      | number y => cases s <;> simp [place] at same
      | infinite t => cases s <;> cases t <;> simp [place] at same <;> rfl

/-- What is missing stands last. -/
theorem sorting : Sorting place where
  trans a b c first second := by
    rw [before_iff] at *
    obtain missing | ⟨numberB, numberC, above⟩ := second
    · exact .inl missing
    · obtain gap | ⟨numberA, -, below⟩ := first
      · cases gap.symm.trans numberB
      · exact .inr ⟨numberA, numberC, below.trans above⟩
  total a b := by
    rw [Bool.or_eq_true, before_iff, before_iff]
    cases gapA : a.isMissing with
    | true => exact .inr (.inl rfl)
    | false =>
        cases gapB : b.isMissing with
        | true => exact .inl (.inl rfl)
        | false =>
            exact (le_total a.place b.place).imp (fun le => .inr ⟨rfl, rfl, le⟩)
              (fun le => .inr ⟨rfl, rfl, le⟩)
  antisymm a b first second := by
    rw [before_iff] at first second
    obtain gapB | ⟨numberA, numberB, below⟩ := first
    · obtain gapA | ⟨numberB, -, -⟩ := second
      · cases a <;> cases gapA
        cases b <;> cases gapB
        rfl
      · cases gapB.symm.trans numberB
    · obtain gapA | ⟨-, -, above⟩ := second
      · cases gapA.symm.trans numberA
      · exact place_injective numberA numberB (below.antisymm above)
  place_le a b numberA numberB inOrder := by
    obtain gap | ⟨-, -, below⟩ := (before_iff a b).mp inOrder
    · cases gap.symm.trans numberB
    · exact below

theorem incomparable : Incomparable Extended where
  lt _ _ gap := compares_missing _ gap
  le _ _ gap := compares_missing _ gap
  eq _ _ gap := compares_missing _ gap

theorem arched : Arched number where
  positive := by
    obtain ⟨p, isPi, above, positive⟩ := Ratio.trigonometric.halfTurn
    refine ⟨p, congrArg ofRatio isPi, above, ?_⟩
    intro x low high
    obtain ⟨k, positiveK, known⟩ := positive x low high
    exact ⟨k, positiveK, congrArg ofRatio known⟩
  mirror x := by
    have turned : Ratio.sine (Ratio.halfTurn - x) = Ratio.sine x := by
      simp only [Ratio.sine, sub_sub_cancel, mul_comm]
    exact congrArg number turned

end Extended

end Chartist
