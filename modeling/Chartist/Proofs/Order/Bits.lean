import Chartist.Proofs.Order.Binary64
import Chartist.Proofs.Order.Sorted
import Mathlib.Algebra.Group.Int.Defs
import Mathlib.Algebra.Group.Nat.Defs

/-!
# Binary64 numbers are sorted by value

The sort key of a binary64 number is read off its 64 bits. Below the sign, exponent and mantissa
follow each other, so the bits of a magnitude count up as the magnitude does (`key`): the leading
bit of a mantissa, which the format leaves out, stands for one step of the exponent. The place of a
number can therefore be found from its key (`place_le_of_key_le`), and sorting binary64 numbers
puts them in numeric order (`Binary64.sorting`).
-/

namespace Chartist.Binary64

open Float.Model Float.Model.UnpackedFloat Scalar Decimal

/-! ## The fields of 64 bits -/

theorem toNat_unpackMantissa (b : BitVec Format.binary64.numBits) :
    (unpackMantissa b).toNat = b.toNat % 2 ^ 52 := by
  show b.toNat >>> 0 % 2 ^ 52 = _
  rw [Nat.shiftRight_zero]

theorem toNat_unpackExponent (b : BitVec Format.binary64.numBits) :
    (unpackExponent b).toNat = b.toNat / 2 ^ 52 % 2 ^ 11 := by
  show b.toNat >>> 52 % 2 ^ 11 = _
  rw [Nat.shiftRight_eq_div_pow]

theorem toNat_unpackSign (b : BitVec Format.binary64.numBits) :
    (unpackSign b).toNat = b.toNat / 2 ^ 63 := by
  have bound : b.toNat < 2 ^ 64 := b.isLt
  show b.toNat >>> 63 % 2 ^ 1 = _
  rw [Nat.shiftRight_eq_div_pow]
  omega

theorem toNat_leading (m : BitVec 52) : (1#1 ++ m).toNat = 2 ^ 52 + m.toNat := by
  rw [BitVec.toNat_append, ← Nat.shiftLeft_add_eq_or_of_lt m.isLt]
  rfl

/-! ## Sort keys -/

/-- The sort key of a sign and the bits of a magnitude. -/
def signedKey : Sign → ℤ → ℤ
  | .positive, n => n
  | .negative, n => -1 - n

/-- The sort key of a number; what is not a number has no use for one. -/
def key : UnpackedFloat → ℤ
  | .notANumber => 0
  | .zero s => signedKey s 0
  | .infinity s => signedKey s (2047 * 2 ^ 52)
  | .finite s m e _ => signedKey s ((e + 1074) * 2 ^ 52 + m)

/-- A number of 53 bits, the first of them set unless its exponent is the least. -/
def Canonical : UnpackedFloat → Prop
  | .notANumber => False
  | .zero _ | .infinity _ => True
  | .finite _ m e _ => m < 2 ^ 53 ∧ -1074 ≤ e ∧ e ≤ 971 ∧ (2 ^ 52 ≤ m ∨ e = -1074)

/-- Between finite numbers of one sign, a lower exponent leaves at least a step of the exponent
between the keys, which is more than the mantissas can make up for. -/
theorem place_le_of_key_le {a b : UnpackedFloat} (canonicalA : Canonical a)
    (canonicalB : Canonical b) (le : key a ≤ key b) : place a ≤ place b := by
  cases a with
  | notANumber => cases canonicalA
  | zero s | infinity s | finite s m e pos =>
      cases b with
      | notANumber => cases canonicalB
      | zero t | infinity t | finite t n f pos' =>
          cases s <;> cases t <;>
            dsimp only [place, key, signedKey, Canonical] at * <;>
            simp only [Prod.Lex.toLex_le_toLex, true_and] <;>
            omega

theorem signedKey_ofBitVec (b : BitVec Format.binary64.numBits) :
    signedKey (Sign.ofBitVec (unpackSign b)) (b.toNat % 2 ^ 63 : ℕ) =
      if b.toNat < 2 ^ 63 then (b.toNat : ℤ) else 2 ^ 63 - 1 - b.toNat := by
  have sign := toNat_unpackSign b
  have bound : b.toNat < 2 ^ 64 := b.isLt
  unfold Sign.ofBitVec
  split
  next positive =>
    have low : b.toNat < 2 ^ 63 := by
      rw [positive, BitVec.toNat_zero] at sign
      omega
    rw [if_pos low, signedKey]
    omega
  next negative =>
    have high : ¬ b.toNat < 2 ^ 63 := by
      intro low
      rw [Nat.div_eq_of_lt low] at sign
      exact negative (BitVec.eq_of_toNat_eq sign)
    rw [if_neg high, signedKey]
    omega

/-- Unpacking the bits of a number and reading them as a count come to the same. -/
theorem key_unpack (b : BitVec Format.binary64.numBits)
    (number : (UnpackedFloat.unpack Format.binary64 b).isNaN = false) :
    Canonical (UnpackedFloat.unpack Format.binary64 b) ∧
      key (UnpackedFloat.unpack Format.binary64 b) =
        if b.toNat < 2 ^ 63 then (b.toNat : ℤ) else 2 ^ 63 - 1 - b.toNat := by
  have mantissa := toNat_unpackMantissa b
  have exponent := toNat_unpackExponent b
  have leading := toNat_leading (unpackMantissa b)
  have bias : (Format.binary64.exponentBias : ℤ) = 1023 := rfl
  have parted : b.toNat % 2 ^ 63 = b.toNat / 2 ^ 52 % 2 ^ 11 * 2 ^ 52 + b.toNat % 2 ^ 52 := by
    omega
  rw [← signedKey_ofBitVec, parted, ← exponent, ← mantissa]
  unfold UnpackedFloat.unpack at number ⊢
  dsimp only at number ⊢
  by_cases full : unpackExponent b = -1#_
  · rw [if_pos full] at number ⊢
    by_cases whole : unpackMantissa b = 0#_
    · rw [if_pos whole, full, whole]
      exact ⟨trivial, rfl⟩
    · rw [if_neg whole] at number
      cases number
  · have notFull : (unpackExponent b).toNat ≠ 2047 :=
      fun same => full (BitVec.eq_of_toNat_eq same)
    rw [if_neg full]
    by_cases least : unpackExponent b = 0#_
    · rw [if_pos least]
      by_cases nothing : unpackMantissa b = 0#_
      · rw [dif_pos nothing, least, nothing]
        exact ⟨trivial, rfl⟩
      · -- without a leading bit, the exponent is that of the next field
        have zero : (unpackExponent b).toNat = 0 := congrArg BitVec.toNat least
        rw [dif_neg nothing]
        constructor
        · show _ < 2 ^ 53 ∧ -1074 ≤ _ ∧ _ ≤ 971 ∧ (2 ^ 52 ≤ _ ∨ _ = -1074)
          omega
        · show signedKey _ ((_ + 1074) * 2 ^ 52 + _) = _
          congr 1
          omega
    · have notLeast : (unpackExponent b).toNat ≠ 0 :=
        fun same => least (BitVec.eq_of_toNat_eq same)
      rw [if_neg least]
      constructor
      · show _ < 2 ^ 53 ∧ -1074 ≤ _ ∧ _ ≤ 971 ∧ (2 ^ 52 ≤ _ ∨ _ = -1074)
        omega
      · show signedKey _ ((_ + 1074) * 2 ^ 52 + _) = _
        congr 1
        omega

theorem sortKey_eq_key {x : Float} (number : Scalar.isNaN x = false) :
    Canonical x.toModel.unpack ∧ sortKey x = key x.toModel.unpack := by
  obtain ⟨canonical, known⟩ := key_unpack x.toModel.toBits.toBitVec number
  exact ⟨canonical, known.symm⟩

theorem sortKey_injective : Function.Injective sortKey := by
  intro a b same
  have boundA := a.toBits.toNat_lt
  have boundB := b.toBits.toNat_lt
  have bits : a.toBits.toNat = b.toBits.toNat := by
    simp only [sortKey, show twoPow 63 = 2 ^ 63 from rfl] at same
    split at same <;> split at same <;> omega
  obtain ⟨⟨bitsA, validA⟩⟩ := a
  obtain ⟨⟨bitsB, validB⟩⟩ := b
  obtain rfl : bitsA = bitsB := UInt64.toNat_inj.mp bits
  rfl

theorem sorting : Sorting fun x : Float => place x.toModel.unpack where
  trans a b c first second :=
    decide_eq_true ((of_decide_eq_true first).trans (of_decide_eq_true second))
  total a b := by
    rw [Bool.or_eq_true]
    exact (le_total (sortKey a) (sortKey b)).imp decide_eq_true decide_eq_true
  antisymm a b first second :=
    sortKey_injective ((of_decide_eq_true first).antisymm (of_decide_eq_true second))
  place_le a b numberA numberB inOrder := by
    obtain ⟨canonicalA, keyA⟩ := sortKey_eq_key numberA
    obtain ⟨canonicalB, keyB⟩ := sortKey_eq_key numberB
    have le : sortKey a ≤ sortKey b := of_decide_eq_true inOrder
    rw [keyA, keyB] at le
    exact place_le_of_key_le canonicalA canonicalB le

end Chartist.Binary64
