import Chartist.Decimal.Shortest
import Mathlib.Algebra.Order.Field.Power
import Mathlib.Data.Nat.Cast.Order.Field
import Mathlib.Data.Rat.Cast.Order
import Mathlib.Tactic.FieldSimp
import Mathlib.Tactic.Linarith
import Mathlib.Tactic.NormNum
import Mathlib.Tactic.Positivity
import Mathlib.Tactic.Ring

/-!
# Shortest decimals read back

The value of a decimal and the interval of a binary64 number as rationals. The shortest decimal of a
number lies in its interval (`shortest_rounds`): what is found on a grid is a neighbour of the number
(`Span.gridFloor_spec`) that lies in the interval (`Span.onGrid_spec`), and on the grid of seventeen
digits there is one, as the steps of that grid are smaller than any interval
(`Span.onGrid_seventeen`).

The intervals of two numbers share no point (`Rounds.unique`): they touch at most at an end, which
belongs to the one with an even mantissa.
-/

namespace Chartist.Decimal

/-! ## Digits -/

theorem lt_tenPow_digitCount (n : ℕ) : n < 10 ^ digitCount n :=
  (Nat.length_toDigits_le_iff (by decide) Nat.length_toDigits_pos).mp (Nat.le_refl _)

theorem digitCount_pos (n : ℕ) : 0 < digitCount n := Nat.length_toDigits_pos

theorem tenPow_digitCount_le {n : ℕ} (pos : 0 < n) : 10 ^ (digitCount n - 1) ≤ n := by
  by_contra less
  rw [Nat.not_le] at less
  rcases Nat.eq_zero_or_pos (digitCount n - 1) with one | more
  · rw [one] at less
    omega
  · have fewer : digitCount n ≤ digitCount n - 1 :=
      (Nat.length_toDigits_le_iff (by decide) more).mpr less
    have := digitCount_pos n
    omega

theorem digitCount_eq {n k : ℕ} (lower : 10 ^ k ≤ n) (upper : n < 10 ^ (k + 1)) :
    digitCount n = k + 1 := by
  have pos : 0 < n := lt_of_lt_of_le (by positivity) lower
  have first : k < digitCount n :=
    (Nat.pow_lt_pow_iff_right (by decide)).mp (lower.trans_lt (lt_tenPow_digitCount n))
  have second : digitCount n - 1 < k + 1 :=
    (Nat.pow_lt_pow_iff_right (by decide)).mp ((tenPow_digitCount_le pos).trans_lt upper)
  omega

theorem digitCount_ten_mul {n : ℕ} (pos : 0 < n) : digitCount (10 * n) = digitCount n + 1 := by
  have count := digitCount_pos n
  have lower := tenPow_digitCount_le pos
  have upper := lt_tenPow_digitCount n
  have split : 10 ^ digitCount n = 10 * 10 ^ (digitCount n - 1) := by
    rw [← Nat.pow_succ']
    congr 1
    omega
  refine digitCount_eq ?_ ?_
  · omega
  · rw [Nat.pow_succ]
    omega

/-- Zeros at the end move the first digit up and change nothing else. -/
theorem dropZeros_spec (fuel : ℕ) {n : ℕ} (pos : 0 < n) : ∃ j, n = dropZeros fuel n * 10 ^ j ∧
    digitCount n = digitCount (dropZeros fuel n) + j := by
  induction fuel generalizing n with
  | zero => exact ⟨0, by simp [dropZeros]⟩
  | succ fuel ih =>
      by_cases zero : n % 10 = 0
      · have parted : n = 10 * (n / 10) := by omega
        obtain ⟨j, value, count⟩ := ih (n := n / 10) (by omega)
        have more : digitCount n = digitCount (n / 10) + 1 := by
          conv_lhs => rw [parted]
          exact digitCount_ten_mul (by omega)
        refine ⟨j + 1, ?_, ?_⟩
        · rw [dropZeros, if_pos zero, pow_succ, ← mul_assoc, ← value]
          omega
        · rw [dropZeros, if_pos zero, more, count]
          omega
      · exact ⟨0, by simp [dropZeros, zero]⟩

/-- What a decimal stands for. -/
def Digits.value (d : Digits) : ℚ := d.digits * 10 ^ (d.point - digitCount d.digits : ℤ)

/-! ## Fractions -/

theorem scale_value (num den : ℕ) (p : ℤ) :
    ((scale num den p).1 : ℚ) / (scale num den p).2 = num / den * 10 ^ p := by
  cases p with
  | ofNat p =>
      simp only [scale, tenPow, Nat.pow_eq, Int.ofNat_eq_natCast, zpow_natCast]
      push_cast
      ring
  | negSucc p =>
      simp only [scale, tenPow, Nat.pow_eq, zpow_negSucc]
      push_cast
      rw [div_mul_eq_div_div, div_eq_mul_inv _ ((10 : ℚ) ^ (p + 1))]

theorem scale_den_pos (num : ℕ) {den : ℕ} (pos : 0 < den) (p : ℤ) : 0 < (scale num den p).2 := by
  cases p with
  | ofNat p => exact pos
  | negSucc p => exact Nat.mul_pos pos (Nat.pow_pos (by decide))

/-- The whole part of the scaled fraction. -/
theorem scale_floor (num : ℕ) {den : ℕ} (pos : 0 < den) (p : ℤ) :
    (((scale num den p).1 / (scale num den p).2 : ℕ) : ℚ) ≤ num / den * 10 ^ p ∧
      (num / den * 10 ^ p : ℚ) < ((scale num den p).1 / (scale num den p).2 + 1 : ℕ) := by
  have positive := scale_den_pos num pos p
  rw [← scale_value]
  refine ⟨Nat.cast_div_le, ?_⟩
  rw [div_lt_iff₀ (by exact_mod_cast positive)]
  exact_mod_cast Nat.lt_mul_of_div_lt (Nat.lt_succ_self _) positive

theorem digitCount_div {a b : ℕ} (pos : 0 < b) (whole : b ≤ a) :
    ∃ t, digitCount (a / b) = t + 1 ∧ (10 ^ t * b : ℚ) ≤ a ∧ (a : ℚ) < 10 ^ (t + 1) * b := by
  have quotient : 0 < a / b := Nat.div_pos whole pos
  obtain ⟨t, count⟩ : ∃ t, digitCount (a / b) = t + 1 :=
    ⟨digitCount (a / b) - 1, by have := digitCount_pos (a / b); omega⟩
  have lower := tenPow_digitCount_le quotient
  have upper := lt_tenPow_digitCount (a / b)
  rw [Nat.le_div_iff_mul_le pos, count, Nat.add_sub_cancel] at lower
  rw [Nat.div_lt_iff_lt_mul pos, count] at upper
  exact ⟨t, count, by exact_mod_cast lower, by exact_mod_cast upper⟩

/-- The position of the point is that of the first digit. -/
theorem decimalPoint_spec {num den : ℕ} (posNum : 0 < num) (posDen : 0 < den) :
    (10 : ℚ) ^ (decimalPoint num den - 1) ≤ num / den ∧
      (num : ℚ) / den < 10 ^ decimalPoint num den := by
  have num' : (0 : ℚ) < num := by exact_mod_cast posNum
  have den' : (0 : ℚ) < den := by exact_mod_cast posDen
  unfold decimalPoint
  by_cases whole : den ≤ num
  · obtain ⟨t, count, lower, upper⟩ := digitCount_div posDen whole
    rw [if_pos whole, count, Nat.cast_add_one, add_sub_cancel_right, ← Nat.cast_add_one,
      zpow_natCast, zpow_natCast, le_div_iff₀ den', div_lt_iff₀ den']
    exact ⟨lower, upper⟩
  · obtain ⟨t, count, lower, upper⟩ := digitCount_div posNum (Nat.le_of_not_le whole)
    have ten : (0 : ℚ) < 10 ^ t := by positivity
    simp only [if_neg whole, count, Nat.add_sub_cancel, tenPow, Nat.pow_eq]
    split
    next exact =>
      have exact' : (den : ℚ) ≤ num * 10 ^ t := by exact_mod_cast exact
      have first : (2 - ((t + 1 : ℕ) : ℤ) - 1) = -(t : ℤ) := by push_cast; ring
      have second : (2 - ((t + 1 : ℕ) : ℤ)) = 1 - (t : ℤ) := by push_cast; ring
      rw [first, second, zpow_sub₀ (by norm_num), zpow_neg, zpow_natCast, zpow_one, le_div_iff₀ den',
        div_lt_div_iff₀ den' ten, inv_mul_le_iff₀ ten]
      constructor <;> linarith
    next more =>
      have more' : (num : ℚ) * 10 ^ t < den := by
        rw [Nat.not_le] at more
        exact_mod_cast more
      have first : (1 - ((t + 1 : ℕ) : ℤ) - 1) = -((t + 1 : ℕ) : ℤ) := by push_cast; ring
      have second : (1 - ((t + 1 : ℕ) : ℤ)) = -(t : ℤ) := by push_cast; ring
      rw [first, second, zpow_neg, zpow_neg, zpow_natCast, zpow_natCast, le_div_iff₀ den',
        inv_mul_le_iff₀ (by positivity), div_lt_iff₀ den', inv_mul_eq_div, lt_div_iff₀ ten]
      exact ⟨upper.le, more'⟩

/-! ## Rounding intervals -/

/-- The mantissa and exponent of a number: the first of 53 bits is set unless the exponent is the
least. -/
structure Canonical (mantissa : ℕ) (exponent : ℤ) : Prop where
  least : minExponent ≤ exponent
  upper : mantissa < 2 * leadingMantissa
  normal : leadingMantissa ≤ mantissa ∨ exponent = minExponent

/-- Quarters of the last place from a number down to the lower end of its interval. -/
def below (mantissa : ℕ) (exponent : ℤ) : ℕ :=
  if mantissa = leadingMantissa ∧ minExponent < exponent then 1 else 2

/-- The middle between a number and the one below it. -/
def lowEnd (mantissa : ℕ) (exponent : ℤ) : ℚ :=
  (4 * mantissa - below mantissa exponent : ℤ) * 2 ^ (exponent - 2)

/-- The middle between a number and the one above it. -/
def highEnd (mantissa : ℕ) (exponent : ℤ) : ℚ := (4 * mantissa + 2 : ℤ) * 2 ^ (exponent - 2)

/-- `x` rounds to `mantissa * 2 ^ exponent`. -/
def Rounds (mantissa : ℕ) (exponent : ℤ) (x : ℚ) : Prop :=
  if mantissa % 2 = 0 then lowEnd mantissa exponent ≤ x ∧ x ≤ highEnd mantissa exponent
  else lowEnd mantissa exponent < x ∧ x < highEnd mantissa exponent

namespace Rounds

variable {m m' : ℕ} {e e' : ℤ} {x : ℚ}

theorem le (rounds : Rounds m e x) : lowEnd m e ≤ x ∧ x ≤ highEnd m e := by
  unfold Rounds at rounds
  split at rounds
  · exact rounds
  · exact ⟨rounds.1.le, rounds.2.le⟩

theorem lt_of_odd (rounds : Rounds m e x) (odd : m % 2 ≠ 0) : lowEnd m e < x ∧ x < highEnd m e := by
  unfold Rounds at rounds
  rwa [if_neg odd] at rounds

theorem of_lt (lower : lowEnd m e < x) (upper : x < highEnd m e) : Rounds m e x := by
  unfold Rounds
  split
  · exact ⟨lower.le, upper.le⟩
  · exact ⟨lower, upper⟩

/-- The interval of a number ends where that of a later one begins or before, and of two that touch
one number is odd. -/
theorem ends_of_before (canonical : Canonical m e) (canonical' : Canonical m' e')
    (before : e < e' ∨ e = e' ∧ m < m') :
    highEnd m e ≤ lowEnd m' e' ∧ (highEnd m e = lowEnd m' e' → m % 2 ≠ 0 ∨ m' % 2 ≠ 0) := by
  have unit : (0 : ℚ) < 2 ^ (e - 2) := by positivity
  have bound := canonical.upper
  have lead : leadingMantissa = 2 ^ 52 := rfl
  obtain ⟨k, later⟩ : ∃ k : ℕ, e' - 2 = (e - 2) + k := ⟨(e' - e).toNat, by omega⟩
  have grown : (2 : ℚ) ^ (e' - 2) = ((2 ^ k : ℤ) : ℚ) * 2 ^ (e - 2) := by
    rw [later, zpow_add₀ (by norm_num), zpow_natCast, mul_comm]
    push_cast
    rfl
  -- in quarters of the last place of the earlier number
  have quarters : (4 * m + 2 : ℤ) ≤ (4 * m' - below m' e') * 2 ^ k ∧
      ((4 * m + 2 : ℤ) = (4 * m' - below m' e') * 2 ^ k → m % 2 ≠ 0 ∨ m' % 2 ≠ 0) := by
    rcases before with less | ⟨same, less⟩
    · have least := canonical.least
      have normal : leadingMantissa ≤ m' := canonical'.normal.resolve_right (by omega)
      have two : (2 : ℤ) ≤ 2 ^ k := by
        have positive : 0 < k := by omega
        obtain ⟨j, rfl⟩ := Nat.exists_eq_succ_of_ne_zero positive.ne'
        rw [pow_succ]
        have : (0 : ℤ) < 2 ^ j := by positivity
        omega
      have reach : (2 ^ 54 - 1 : ℤ) ≤ 4 * m' - below m' e' := by
        unfold below
        split <;> omega
      have product : (2 ^ 54 - 1) * 2 ≤ (4 * m' - below m' e' : ℤ) * 2 ^ k :=
        mul_le_mul reach two (by norm_num) (by omega)
      constructor
      · omega
      · intro touch
        left
        omega
    · obtain rfl : k = 0 := by omega
      unfold below
      split <;> omega
  rw [highEnd, lowEnd, grown, ← mul_assoc]
  refine ⟨?_, fun touch => quarters.2 ?_⟩
  · exact mul_le_mul_of_nonneg_right (by exact_mod_cast quarters.1) unit.le
  · have equal := mul_right_cancel₀ unit.ne' touch
    exact_mod_cast equal

theorem not_both (canonical : Canonical m e) (canonical' : Canonical m' e')
    (before : e < e' ∨ e = e' ∧ m < m') (rounds : Rounds m e x) : ¬ Rounds m' e' x := by
  intro rounds'
  obtain ⟨apart, touch⟩ := ends_of_before canonical canonical' before
  have meet : highEnd m e = lowEnd m' e' :=
    le_antisymm apart (rounds'.le.1.trans rounds.le.2)
  rcases touch meet with odd | odd
  · exact absurd (meet ▸ (rounds.lt_of_odd odd).2) rounds'.le.1.not_gt
  · exact absurd (meet ▸ (rounds'.lt_of_odd odd).1) rounds.le.2.not_gt

/-- A rational rounds to one number. -/
theorem unique (canonical : Canonical m e) (canonical' : Canonical m' e') (rounds : Rounds m e x)
    (rounds' : Rounds m' e' x) : m = m' ∧ e = e' := by
  rcases lt_trichotomy e e' with less | same | more
  · exact absurd rounds' (not_both canonical canonical' (.inl less) rounds)
  · rcases Nat.lt_trichotomy m m' with less | equal | more
    · exact absurd rounds' (not_both canonical canonical' (.inr ⟨same, less⟩) rounds)
    · exact ⟨equal, same⟩
    · exact absurd rounds (not_both canonical' canonical (.inr ⟨same.symm, more⟩) rounds')
  · exact absurd rounds (not_both canonical' canonical (.inl more) rounds')

/-- Only a positive rational rounds to a positive number. -/
theorem pos (positive : 0 < m) (rounds : Rounds m e x) : 0 < x := by
  refine lt_of_lt_of_le ?_ rounds.le.1
  have quarters : (0 : ℤ) < 4 * m - below m e := by
    unfold below
    split <;> omega
  exact mul_pos (by exact_mod_cast quarters) (by positivity)

end Rounds

/-! ## Spans -/

namespace Span

variable {s : Span} {m : ℕ} {e : ℤ}

/-- The span has the interval of a number, over its denominator. -/
structure Describes (s : Span) (m : ℕ) (e : ℤ) : Prop where
  den : 0 < s.den
  low : (s.low : ℚ) / s.den = lowEnd m e
  value : (s.value : ℚ) / s.den = 4 * m * 2 ^ (e - 2)
  high : (s.high : ℚ) / s.den = highEnd m e
  closed : s.closed = decide (m % 2 = 0)

theorem describes_of (pos : 0 < m) (e : ℤ) : (Span.of m e).Describes m e := by
  have under : below m e ≤ 4 * m := by
    unfold below
    split <;> omega
  have low : ((4 * m - below m e : ℕ) : ℚ) = (4 * m - below m e : ℤ) := by
    push_cast [Nat.cast_sub under]
    rfl
  cases exact : e - 2 with
  | ofNat n =>
      have span : Span.of m e = ⟨(4 * m - below m e) * twoPow n, 4 * m * twoPow n,
          (4 * m + 2) * twoPow n, 1, m % 2 = 0⟩ := by
        simp only [Span.of, exact, below]
      rw [span]
      refine ⟨Nat.one_pos, ?_, ?_, ?_, rfl⟩ <;>
        simp only [lowEnd, highEnd, exact, ← low, Int.ofNat_eq_natCast, zpow_natCast, twoPow,
          Nat.pow_eq, Nat.cast_one, div_one] <;>
        push_cast <;> rfl
  | negSucc n =>
      have span : Span.of m e = ⟨4 * m - below m e, 4 * m, 4 * m + 2, twoPow (n + 1),
          m % 2 = 0⟩ := by
        simp only [Span.of, exact, below]
      rw [span]
      refine ⟨Nat.pow_pos (by decide), ?_, ?_, ?_, rfl⟩ <;>
        simp only [lowEnd, highEnd, exact, ← low, zpow_negSucc, twoPow, Nat.pow_eq,
          div_eq_mul_inv] <;>
        push_cast <;> rfl

/-- A fraction is in the span if it rounds to the number. -/
theorem holds_iff (describes : s.Describes m e) {num den : ℕ} (pos : 0 < den) :
    s.holds num den = true ↔ Rounds m e (num / den) := by
  have sden : (0 : ℚ) < s.den := by exact_mod_cast describes.den
  have den' : (0 : ℚ) < den := by exact_mod_cast pos
  unfold holds Rounds
  rw [describes.closed, ← describes.low, ← describes.high]
  by_cases even : m % 2 = 0
  · simp only [even, decide_true, if_true, decide_eq_true_eq, div_le_div_iff₀ sden den',
      div_le_div_iff₀ den' sden]
    norm_cast
  · simp only [even, decide_false, if_false, decide_eq_true_eq, Bool.false_eq_true,
      div_lt_div_iff₀ sden den', div_lt_div_iff₀ den' sden]
    norm_cast

/-! ## Grids -/

/-- A grid point between two powers of ten, as a decimal without zeros at its end. -/
theorem value_pick (point : ℤ) {n d : ℕ} (lower : 10 ^ n ≤ d) (upper : d ≤ 10 ^ (n + 1)) :
    Digits.value ⟨dropZeros (n + 1) d, if d = tenPow (n + 1) then point + 1 else point⟩ =
      d * 10 ^ (point - (n + 1 : ℕ) : ℤ) := by
  obtain ⟨j, whole, count⟩ :=
    dropZeros_spec (n + 1) (lt_of_lt_of_le (Nat.pow_pos (by decide)) lower)
  have exponent : (if d = tenPow (n + 1) then point + 1 else point) -
      (digitCount (dropZeros (n + 1) d) : ℤ) = j + (point - (n + 1 : ℕ)) := by
    by_cases round : d = tenPow (n + 1)
    · have digits : digitCount d = n + 2 := by
        rw [round]
        exact digitCount_eq (Nat.le_refl _) (Nat.pow_lt_pow_right (by decide) (Nat.lt_succ_self _))
      rw [if_pos round]
      omega
    · have digits : digitCount d = n + 1 :=
        digitCount_eq lower (lt_of_le_of_ne upper round)
      rw [if_neg round]
      omega
  have value : (d : ℚ) = dropZeros (n + 1) d * 10 ^ j := by exact_mod_cast whole
  rw [Digits.value, exponent, zpow_add₀ (by norm_num), zpow_natCast, ← mul_assoc, ← value]

theorem holds_scale_iff (describes : s.Describes m e) (d : ℕ) (p : ℤ) :
    s.holds (scale d 1 p).1 (scale d 1 p).2 = true ↔ Rounds m e (d * 10 ^ p) := by
  rw [holds_iff describes (scale_den_pos d Nat.one_pos p), scale_value, Nat.cast_one, div_one]

/-- The greatest grid point that is not above the number. -/
def gridFloor (s : Span) (point : ℤ) (n : ℕ) : ℕ :=
  (scale s.value s.den (n - point)).1 / (scale s.value s.den (n - point)).2

/-- The number lies between two neighbours on the grid, and these have as many digits as the grid
says, but for the power of ten behind the last one. -/
theorem gridFloor_spec (den : 0 < s.den) {point : ℤ}
    (lower : (10 : ℚ) ^ (point - 1) ≤ s.value / s.den) (upper : (s.value : ℚ) / s.den < 10 ^ point)
    (n : ℕ) : 10 ^ n ≤ s.gridFloor point (n + 1) ∧ s.gridFloor point (n + 1) < 10 ^ (n + 1) ∧
      s.gridFloor point (n + 1) * 10 ^ (point - (n + 1 : ℕ)) ≤ (s.value : ℚ) / s.den ∧
      (s.value : ℚ) / s.den < (s.gridFloor point (n + 1) + 1 : ℕ) * 10 ^ (point - (n + 1 : ℕ)) := by
  have grid : (0 : ℚ) < 10 ^ (point - (n + 1 : ℕ)) := by positivity
  have shifted (k : ℕ) : (10 : ℚ) ^ k * 10 ^ (point - (n + 1 : ℕ)) =
      10 ^ (point - (n + 1 : ℕ) + k) := by
    rw [zpow_add₀ (by norm_num), zpow_natCast, mul_comm]
  obtain ⟨below, above⟩ : (s.gridFloor point (n + 1) : ℚ) ≤
      s.value / s.den / 10 ^ (point - (n + 1 : ℕ)) ∧
      (s.value : ℚ) / s.den / 10 ^ (point - (n + 1 : ℕ)) < (s.gridFloor point (n + 1) + 1 : ℕ) := by
    rw [div_eq_mul_inv _ ((10 : ℚ) ^ (point - (n + 1 : ℕ))), ← zpow_neg, neg_sub]
    exact scale_floor s.value den _
  -- the powers of ten around the number, counted in steps of the grid
  have least : (10 : ℚ) ^ n ≤ s.value / s.den / 10 ^ (point - (n + 1 : ℕ)) := by
    have first : point - (n + 1 : ℕ) + (n : ℕ) = point - 1 := by omega
    rwa [le_div_iff₀ grid, shifted, first]
  have most : (s.value : ℚ) / s.den / 10 ^ (point - (n + 1 : ℕ)) < 10 ^ (n + 1) := by
    rwa [div_lt_iff₀ grid, shifted, sub_add_cancel]
  refine ⟨?_, ?_, (le_div_iff₀ grid).mp below, (div_lt_iff₀ grid).mp above⟩
  · have digits : 10 ^ n < s.gridFloor point (n + 1) + 1 := by
      exact_mod_cast least.trans_lt above
    omega
  · exact_mod_cast below.trans_lt most

/-- If one of the neighbours rounds to the number, the search finds such a one. -/
theorem onGrid_spec (describes : s.Describes m e) (tie : Tie) {point : ℤ}
    (lower : (10 : ℚ) ^ (point - 1) ≤ s.value / s.den) (upper : (s.value : ℚ) / s.den < 10 ^ point)
    (n : ℕ) :
    (∀ found, s.onGrid tie point (n + 1) = some found → Rounds m e found.value) ∧
      (s.onGrid tie point (n + 1) = none →
        ¬ Rounds m e (s.gridFloor point (n + 1) * 10 ^ (point - (n + 1 : ℕ))) ∧
        ¬ Rounds m e ((s.gridFloor point (n + 1) + 1 : ℕ) * 10 ^ (point - (n + 1 : ℕ)))) := by
  obtain ⟨least, most, -⟩ := gridFloor_spec describes.den lower upper n
  have first := holds_scale_iff describes (s.gridFloor point (n + 1)) (point - (n + 1 : ℕ))
  have second := holds_scale_iff describes (s.gridFloor point (n + 1) + 1) (point - (n + 1 : ℕ))
  have down := value_pick point least most.le
  have up := value_pick point (Nat.le_succ_of_le least) most
  rw [Nat.succ_eq_add_one] at up
  rw [← down] at first ⊢
  rw [← up] at second ⊢
  unfold onGrid
  dsimp only
  split <;> rename_i here next
  · refine ⟨?_, nofun⟩
    rintro _ ⟨⟩
    split
    · exact second.mp next
    · exact first.mp here
  · refine ⟨?_, nofun⟩
    rintro _ ⟨⟩
    exact first.mp here
  · refine ⟨?_, nofun⟩
    rintro _ ⟨⟩
    exact second.mp next
  · exact ⟨nofun, fun _ =>
      ⟨mt first.mpr (Bool.eq_false_iff.mp here), mt second.mpr (Bool.eq_false_iff.mp next)⟩⟩

/-- The steps of the grid of seventeen digits are smaller than the interval. -/
theorem onGrid_seventeen (describes : s.Describes m e) (canonical : Canonical m e) (tie : Tie)
    {point : ℤ} (lower : (10 : ℚ) ^ (point - 1) ≤ s.value / s.den)
    (upper : (s.value : ℚ) / s.den < 10 ^ point) : s.onGrid tie point 17 ≠ none := by
  intro missed
  obtain ⟨-, -, before, after⟩ := gridFloor_spec describes.den lower upper 16
  obtain ⟨first, second⟩ := (onGrid_spec describes tie lower upper 16).2 missed
  generalize s.gridFloor point (16 + 1) = d at before after first second
  have unit : (0 : ℚ) < 2 ^ (e - 2) := by positivity
  have between : lowEnd m e < s.value / s.den ∧ (s.value : ℚ) / s.den < highEnd m e := by
    have quarters : (0 : ℚ) < below m e := by
      unfold below
      split <;> norm_num
    rw [describes.value, lowEnd, highEnd]
    constructor <;> refine mul_lt_mul_of_pos_right ?_ unit <;> push_cast <;> linarith
  have left : d * 10 ^ (point - 17) ≤ lowEnd m e := by
    by_contra inside
    exact first (.of_lt (not_le.mp inside) (before.trans_lt between.2))
  have right : highEnd m e ≤ (d + 1 : ℕ) * 10 ^ (point - 17) := by
    by_contra inside
    exact second (.of_lt (between.1.trans after) (not_le.mp inside))
  have step : (2 + below m e) * 2 ^ (e - 2) ≤ (10 : ℚ) ^ (point - 17) := by
    rw [lowEnd] at left
    rw [highEnd] at right
    push_cast at left right
    linarith
  have power : (10 : ℚ) ^ (point - 1) = 10 ^ 16 * 10 ^ (point - 17) := by
    rw [← zpow_natCast, ← zpow_add₀ (by norm_num)]
    congr 1
    push_cast
    ring
  rw [power, describes.value] at lower
  have scaled : ((2 + below m e) * 10 ^ 16 : ℚ) * 2 ^ (e - 2) ≤ 4 * m * 2 ^ (e - 2) := by linarith
  have steps : (2 + below m e) * 10 ^ 16 ≤ 4 * m := by
    exact_mod_cast le_of_mul_le_mul_right scaled unit
  have bound := canonical.upper
  have lead : leadingMantissa = 2 ^ 52 := rfl
  revert steps
  unfold below
  split <;> omega

/-- A search that gets to the grid of seventeen digits finds a decimal of the number. -/
theorem search_rounds (describes : s.Describes m e) (canonical : Canonical m e) (tie : Tie)
    {point : ℤ} (lower : (10 : ℚ) ^ (point - 1) ≤ s.value / s.den)
    (upper : (s.value : ℚ) / s.den < 10 ^ point) (fuel n : ℕ) (reach : fuel + (n + 1) = 17) :
    Rounds m e (s.search tie point fuel (n + 1)).value := by
  have sound (n : ℕ) := (onGrid_spec describes tie lower upper n).1
  induction fuel generalizing n with
  | zero =>
      obtain rfl : n = 16 := by omega
      obtain ⟨found, hit⟩ := Option.ne_none_iff_exists'.mp
        (onGrid_seventeen describes canonical tie lower upper)
      rw [search, hit]
      exact sound 16 found hit
  | succ fuel ih =>
      rw [search]
      split
      next found hit => exact sound n found hit
      next => exact ih (n + 1) (by omega)

end Span

/-- The shortest decimal of a number rounds to it. -/
theorem shortest_rounds (tie : Tie) {m : ℕ} {e : ℤ} (pos : 0 < m) (canonical : Canonical m e) :
    Rounds m e (shortest tie m e).value := by
  have describes := Span.describes_of pos e
  have positive : 0 < (Span.of m e).value := by
    have value : (0 : ℚ) < (Span.of m e).value / (Span.of m e).den := by
      rw [describes.value]
      positivity
    by_contra zero
    rw [Nat.eq_zero_of_not_pos zero] at value
    norm_num at value
  obtain ⟨lower, upper⟩ := decimalPoint_spec positive describes.den
  exact Span.search_rounds describes canonical tie lower upper 16 0 rfl

end Chartist.Decimal
