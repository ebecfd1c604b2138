import Chartist.Proofs.Cache.Text
import Chartist.Proofs.Decimal.Shortest
import Chartist.Proofs.Order.Bits
import Chartist.Scalar.Binary64
import Mathlib.Data.List.TakeWhile

/-!
# Binary64 numbers are told from their texts

A number in running text is written without an exponent, so its text is read back as digits with
perhaps a point among them (`reading`). It reads as the decimal that was set out, which rounds to no
other number. With the sign and the words for what is not finite, no two binary64 numbers are
written alike, and none with a comma (`legible_binary64`).
-/

namespace Chartist.Decimal

open Float.Model Float.Model.UnpackedFloat Binary64

/-! ## Reading digits and a point -/

/-- What the digits before and after the first point stand for. -/
def reading (text : List Char) : ℚ :=
  let whole := text.takeWhile (· != '.')
  let fraction := (text.dropWhile (· != '.')).drop 1
  Nat.ofDigitChars 10 (whole ++ fraction) 0 / 10 ^ fraction.length

theorem not_point {whole : List Char} (plain : '.' ∉ whole) :
    ∀ c ∈ whole, (c != '.') = true := by
  rintro c member
  exact bne_iff_ne.mpr fun same => plain (same ▸ member)

theorem reading_whole {whole : List Char} (plain : '.' ∉ whole) :
    reading whole = Nat.ofDigitChars 10 whole 0 := by
  have taken := List.takeWhile_eq_self_iff.mpr (not_point plain)
  have dropped := List.dropWhile_eq_nil_iff.mpr (not_point plain)
  simp [reading, taken, dropped]

theorem reading_point {whole : List Char} (plain : '.' ∉ whole) (fraction : List Char) :
    reading (whole ++ '.' :: fraction) =
      Nat.ofDigitChars 10 (whole ++ fraction) 0 / 10 ^ fraction.length := by
  simp [reading, List.takeWhile_append_of_pos (not_point plain),
    List.dropWhile_append_of_pos (not_point plain)]

theorem toList_zeros (n : ℕ) : (zeros n).toList = List.replicate n '0' := by
  rw [zeros, String.pushn_eq_repeat_push]
  induction n with
  | zero => rfl
  | succ n ih => rw [Nat.repeat, String.toList_push, ih, List.replicate_succ']

/-- A decimal set out without an exponent reads as its value. -/
theorem reading_setPositional {l : Layout} (whole : l.whole = "") (d : Digits) :
    reading (l.setPositional (Nat.toDigits 10 d.digits) d.point).toList = d.value := by
  obtain ⟨n, point⟩ := d
  have plain : '.' ∉ Nat.toDigits 10 n := not_mem_digits rfl n
  have spelled : Nat.ofDigitChars 10 (Nat.toDigits 10 n) 0 = n := Nat.ofDigitChars_ten_toDigits
  have count : (Nat.toDigits 10 n).length = digitCount n := rfl
  generalize Nat.toDigits 10 n = digits at plain spelled count
  rw [Digits.value, ← count]
  cases point with
  | ofNat p =>
      simp only [Layout.setPositional]
      split_ifs with start ended
      · have text : ("0." ++ String.ofList digits).toList = ['0'] ++ '.' :: digits := by simp
        rw [text, reading_point (by decide), start]
        simp [Nat.ofDigitChars_cons, spelled, div_eq_mul_inv]
      · have text : (String.ofList digits ++ zeros (p - digits.length) ++ l.whole).toList =
            digits ++ List.replicate (p - digits.length) '0' := by
          simp [whole, toList_zeros]
        have exponent : (Int.ofNat p - digits.length : ℤ) = (p - digits.length : ℕ) := by
          rw [Int.ofNat_eq_natCast]
          omega
        rw [text, reading_whole (by simp [plain]), Nat.ofDigitChars_append, spelled,
          Nat.ofDigitChars_replicate_zero, exponent, zpow_natCast]
        push_cast
        ring
      · have text : (String.ofList (digits.take p) ++ "." ++ String.ofList (digits.drop p)).toList =
            digits.take p ++ '.' :: digits.drop p := by simp
        have exponent : (Int.ofNat p - digits.length : ℤ) = -(digits.length - p : ℕ) := by
          rw [Int.ofNat_eq_natCast]
          omega
        rw [text, reading_point fun member => plain (List.mem_of_mem_take member),
          List.take_append_drop, spelled, List.length_drop, exponent, zpow_neg, zpow_natCast,
          div_eq_mul_inv]
  | negSucc p =>
      have text : ("0." ++ zeros (p + 1) ++ String.ofList digits).toList =
          ['0'] ++ '.' :: (List.replicate (p + 1) '0' ++ digits) := by
        simp [toList_zeros]
      have exponent : (Int.negSucc p - digits.length : ℤ) = -(p + 1 + digits.length : ℕ) := by
        rw [Int.negSucc_eq]
        push_cast
        ring
      rw [Layout.setPositional, text, reading_point (by decide), exponent, zpow_neg, zpow_natCast,
        Nat.ofDigitChars_append, Nat.ofDigitChars_append, Nat.ofDigitChars_replicate_zero]
      simp [Nat.ofDigitChars_cons, spelled, div_eq_mul_inv]

/-! ## Texts of magnitudes -/

/-- The text has digits and points alone. -/
def Numeric (s : String) : Prop := ∀ c ∈ s.toList, c = '.' ∨ c.isDigit = true

theorem Numeric.append {s t : String} (hs : Numeric s) (ht : Numeric t) : Numeric (s ++ t) := by
  simpa [Numeric, or_imp, forall_and] using ⟨hs, ht⟩

theorem numeric_ofList {digits : List Char} (all : ∀ c ∈ digits, c.isDigit = true) :
    Numeric (String.ofList digits) := by
  intro c member
  rw [String.toList_ofList] at member
  exact .inr (all c member)

theorem numeric_zeros (n : ℕ) : Numeric (zeros n) := by
  intro c member
  rw [toList_zeros] at member
  rw [List.eq_of_mem_replicate member]
  exact .inr rfl

theorem numeric_setPositional {l : Layout} (whole : l.whole = "") {digits : List Char}
    (all : ∀ c ∈ digits, c.isDigit = true) (point : ℤ) : Numeric (l.setPositional digits point) := by
  have nought : Numeric "0." := by simp [Numeric]
  have dot : Numeric "." := by simp [Numeric]
  have nothing : Numeric "" := nofun
  cases point with
  | ofNat p =>
      simp only [Layout.setPositional, whole]
      split_ifs
      · exact nought.append (numeric_ofList all)
      · exact ((numeric_ofList all).append (numeric_zeros _)).append nothing
      · exact ((numeric_ofList fun c member => all c (List.mem_of_mem_take member)).append dot).append
          (numeric_ofList fun c member => all c (List.mem_of_mem_drop member))
  | negSucc p => exact (nought.append (numeric_zeros _)).append (numeric_ofList all)

/-- A magnitude in running text. -/
def magnitude (mantissa : ℕ) (exponent : ℤ) : String :=
  if mantissa = 0 then "0"
  else Layout.plain.set (shortest .up mantissa exponent)

theorem numeric_magnitude (m : ℕ) (e : ℤ) : Numeric (magnitude m e) := by
  unfold magnitude
  split
  · simp [Numeric]
  · exact numeric_setPositional rfl
      (fun c member => Nat.isDigit_of_mem_toDigits (by decide) (by decide) member) _

variable {m m' : ℕ} {e e' : ℤ}

theorem reading_magnitude (pos : 0 < m) (canonical : Canonical m e) :
    Rounds m e (reading (magnitude m e).toList) := by
  have text : magnitude m e = Layout.plain.setPositional
      (Nat.toDigits 10 (shortest .up m e).digits) (shortest .up m e).point :=
    if_neg pos.ne'
  rw [text, reading_setPositional rfl]
  exact shortest_rounds .up pos canonical

theorem reading_magnitude_zero (e : ℤ) : reading (magnitude 0 e).toList = 0 := by
  have text : (magnitude 0 e).toList = ['0'] := by simp [magnitude]
  rw [text, reading_whole (by decide)]
  rfl

/-- No two magnitudes are written alike. -/
theorem magnitude_inj (canonical : Canonical m e) (canonical' : Canonical m' e')
    (same : magnitude m e = magnitude m' e') : m = m' ∧ e = e' := by
  rcases Nat.eq_zero_or_pos m with rfl | pos <;> rcases Nat.eq_zero_or_pos m' with rfl | pos'
  · have lead : leadingMantissa = 2 ^ 52 := rfl
    have least := canonical.normal
    have least' := canonical'.normal
    omega
  · have rounds := reading_magnitude pos' canonical'
    rw [← same, reading_magnitude_zero] at rounds
    exact absurd (rounds.pos pos') (lt_irrefl 0)
  · have rounds := reading_magnitude pos canonical
    rw [same, reading_magnitude_zero] at rounds
    exact absurd (rounds.pos pos) (lt_irrefl 0)
  · have rounds := reading_magnitude pos canonical
    rw [same] at rounds
    exact rounds.unique canonical canonical' (reading_magnitude pos' canonical')

/-! ## Texts of numbers -/

namespace Parts

/-- The running text of a number with these parts. -/
def text : Parts → String
  | .notANumber => "NaN"
  | .infinite negative => signedInfinity negative
  | .finite negative m e => if negative then "-" ++ magnitude m e else magnitude m e

theorem write_eq (x : Float) : Layout.plain.write x = (Parts.of x).text := by
  unfold Layout.write
  cases Parts.of x <;> rfl

/-- Parts as a number has them. -/
def Canonical : Parts → Prop
  | .finite _ m e => Decimal.Canonical m e
  | _ => True

theorem mem_text_finite {negative : Bool} {c : Char}
    (member : c ∈ (Parts.finite negative m e).text.toList) :
    c = '-' ∧ negative = true ∨ c = '.' ∨ c.isDigit = true := by
  cases negative with
  | false => exact .inr (numeric_magnitude m e c member)
  | true =>
      have signed : c ∈ '-' :: (magnitude m e).toList := by simpa [text] using member
      rcases List.mem_cons.mp signed with rfl | rest
      · exact .inl ⟨rfl, rfl⟩
      · exact .inr (numeric_magnitude m e c rest)

theorem text_finite_ne {negative : Bool} {word : String} {c : Char} (member : c ∈ word.toList)
    (letter : c ≠ '-' ∧ c ≠ '.' ∧ c.isDigit = false) :
    (Parts.finite negative m e).text ≠ word := by
  intro same
  rw [← same] at member
  rcases mem_text_finite member with ⟨sign, -⟩ | point | digit
  · exact letter.1 sign
  · exact letter.2.1 point
  · rw [letter.2.2] at digit
    cases digit

theorem sign_mem_text {negative : Bool} :
    '-' ∈ (Parts.finite negative m e).text.toList ↔ negative = true := by
  refine ⟨fun member => ?_, fun sign => by simp [text, sign]⟩
  rcases mem_text_finite member with ⟨-, sign⟩ | point | digit
  · exact sign
  · exact absurd point (by decide)
  · exact absurd digit (by decide)

theorem text_finite_inj {negative negative' : Bool} (canonical : Decimal.Canonical m e)
    (canonical' : Decimal.Canonical m' e')
    (same : (Parts.finite negative m e).text = (Parts.finite negative' m' e').text) :
    Parts.finite negative m e = Parts.finite negative' m' e' := by
  have sign : negative = negative' := by
    rw [Bool.eq_iff_iff, ← sign_mem_text (m := m) (e := e), same, sign_mem_text]
  subst sign
  have unsigned : magnitude m e = magnitude m' e' := by
    cases negative with
    | false => exact same
    | true => simpa [text] using same
  obtain ⟨rfl, rfl⟩ := magnitude_inj canonical canonical' unsigned
  rfl

theorem text_inj {p q : Parts} (canonical : p.Canonical) (canonical' : q.Canonical)
    (same : p.text = q.text) : p = q := by
  rcases p with _ | negative | ⟨negative, m, e⟩ <;> rcases q with _ | negative' | ⟨negative', m', e'⟩
  · rfl
  · revert same
    cases negative' <;> decide
  · exact absurd same.symm (text_finite_ne (c := 'N') (by decide) (by decide))
  · revert same
    cases negative <;> decide
  · revert same
    cases negative <;> cases negative' <;> decide
  · exact absurd same.symm (text_finite_ne (c := 'n') (by cases negative <;> decide) (by decide))
  · exact absurd same (text_finite_ne (c := 'N') (by decide) (by decide))
  · exact absurd same (text_finite_ne (c := 'n') (by cases negative' <;> decide) (by decide))
  · exact text_finite_inj canonical canonical' same

theorem plain_text (p : Parts) : Plain p.text := by
  intro comma
  rcases p with _ | negative | ⟨negative, m, e⟩
  · revert comma
    decide
  · revert comma
    cases negative <;> decide
  · rcases mem_text_finite comma with ⟨sign, -⟩ | point | digit
    · exact absurd sign (by decide)
    · exact absurd point (by decide)
    · exact absurd digit (by decide)

/-! ## Parts of numbers -/

theorem canonical_of (x : Float) : (Parts.of x).Canonical := by
  have lead : leadingMantissa = 2 ^ 52 := rfl
  have field : x.toBits.toNat % twoPow 52 < 2 ^ 52 := Nat.mod_lt _ (by decide)
  have least : minExponent = -1074 := rfl
  unfold Parts.of
  dsimp only
  split_ifs
  · trivial
  · trivial
  · constructor <;> omega
  · constructor <;> omega

/-- The bits of the value that is not a number are fixed. -/
theorem toBits_of_notANumber {x : Float} (missing : Parts.of x = .notANumber) :
    x.toBits.toBitVec = packedNaN Format.binary64 := by
  unfold Parts.of at missing
  dsimp only at missing
  split_ifs at missing with full whole
  refine x.toModel.valid.eq_packedNaN ?_ ?_
  · exact BitVec.eq_of_toNat_eq ((toNat_unpackExponent _).trans full)
  · intro nothing
    exact whole ((toNat_unpackMantissa _).symm.trans (congrArg BitVec.toNat nothing))

theorem of_injective : Function.Injective Parts.of := by
  intro x y same
  have bits : x.toBits.toNat = y.toBits.toNat := by
    have boundX := x.toBits.toNat_lt
    have boundY := y.toBits.toNat_lt
    by_cases missing : Parts.of x = .notANumber
    · exact congrArg BitVec.toNat
        ((toBits_of_notANumber missing).trans (toBits_of_notANumber (same ▸ missing)).symm)
    · unfold Parts.of at same missing
      simp only [show twoPow 63 = 2 ^ 63 from rfl, show twoPow 52 = 2 ^ 52 from rfl,
        show twoPow 11 = 2 ^ 11 from rfl, show leadingMantissa = 2 ^ 52 from rfl] at same missing
      split_ifs at same missing
      all_goals
        first
        | exact absurd rfl missing
        | simp only [Parts.finite.injEq, Parts.infinite.injEq, decide_eq_decide] at same
      all_goals omega
  obtain ⟨⟨bitsX, validX⟩⟩ := x
  obtain ⟨⟨bitsY, validY⟩⟩ := y
  obtain rfl : bitsX = bitsY := UInt64.toNat_inj.mp bits
  rfl

end Parts

/-- Binary64 numbers are written without a comma, and no two of them alike. -/
theorem legible_binary64 : Legible (Scalar.text : Float → String) where
  injective x y same := by
    change Layout.plain.write x = Layout.plain.write y at same
    rw [Parts.write_eq, Parts.write_eq] at same
    exact Parts.of_injective (Parts.text_inj (Parts.canonical_of x) (Parts.canonical_of y) same)
  plain x := by
    change Plain (Layout.plain.write x)
    rw [Parts.write_eq]
    exact Parts.plain_text _

end Chartist.Decimal
