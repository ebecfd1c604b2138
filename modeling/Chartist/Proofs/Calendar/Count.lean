import Chartist.Calendar.Reader
import Chartist.Decimal.Shortest
import Mathlib.Data.Int.GCD
import Mathlib.Data.List.TakeWhile
import Mathlib.Tactic.NormNum.GCD

/-!
# Counts as time stamps

The text of an integer is a sign or a digit with digits behind it (`counts_of_integer`). Every date
pattern wants a mark that is no digit behind its first number, so an integer is never read as a date
(`dateStamp?_of_counts`), and what it stands for is up to its size alone. `counts_are_read` says
how, and when the unit goes by the number of digits.
-/

namespace Chartist.Calendar

open Decimal

/-! ## Texts of integers -/

/-- Something that is no blank, and digits behind it. -/
def Counts (cs : List Char) : Prop :=
  ∃ first rest, cs = first :: rest ∧ Text.isBlank first = false ∧ ∀ c ∈ rest, c.isDigit = true

theorem not_isBlank_of_isDigit {c : Char} (digit : c.isDigit = true) : Text.isBlank c = false := by
  obtain ⟨low, high⟩ : 48 ≤ c.toNat ∧ c.toNat ≤ 57 := Char.isDigit_iff_toNat.mp digit
  simp [Text.isBlank, Text.blankRanges]
  omega

/-- What is left of a text without its sign, and the sign. -/
theorem scanSign_cases (cs : List Char) :
    cs = (scanSign cs).2 ∨ ∃ sign, Text.isBlank sign = false ∧ cs = sign :: (scanSign cs).2 := by
  unfold scanSign
  split
  case h_1 rest => exact .inr ⟨'-', by decide, rfl⟩
  case h_2 rest => exact .inr ⟨'+', by decide, rfl⟩
  case h_3 => exact .inl rfl

theorem spanDigits_digits {ds : List Char} (digits : ∀ c ∈ ds, c.isDigit = true) :
    spanDigits ds = (ds, []) :=
  Prod.ext (List.takeWhile_eq_self_iff.mpr digits) (List.dropWhile_eq_nil_iff.mpr digits)

/-- What is read as an integer is digits, perhaps behind a sign. -/
theorem integer?_eq_some_iff {text : String} {n : Int} :
    integer? text = some n ↔
      (scanSign text.toList).2 ≠ [] ∧ (∀ c ∈ (scanSign text.toList).2, c.isDigit = true) ∧
      (if (scanSign text.toList).1 then -(digitsValue (scanSign text.toList).2 : Int)
        else digitsValue (scanSign text.toList).2) = n := by
  simp only [integer?]
  by_cases digits : ∀ c ∈ (scanSign text.toList).2, c.isDigit = true
  · rw [spanDigits_digits digits]
    simpa using fun _ _ => digits
  · have behind : (spanDigits (scanSign text.toList).2).2 ≠ [] :=
      mt List.dropWhile_eq_nil_iff.mp digits
    simp [digits, behind]

theorem counts_of_integer {text : String} {n : Int} (read : integer? text = some n) :
    Counts text.toList := by
  obtain ⟨some, digits, -⟩ := integer?_eq_some_iff.mp read
  rcases scanSign_cases text.toList with bare | ⟨sign, notBlank, signed⟩
  · obtain ⟨first, rest, parts⟩ := List.exists_cons_of_ne_nil some
    rw [parts] at bare digits
    obtain ⟨digit, others⟩ := List.forall_mem_cons.mp digits
    exact ⟨first, rest, bare, not_isBlank_of_isDigit digit, others⟩
  · exact ⟨sign, _, signed, notBlank, digits⟩

/-- Every integer is read back from its own text. -/
theorem integer?_toString (n : Int) : integer? (toString n) = some n := by
  have value (m : Nat) : digitsValue (Nat.toDigits 10 m) = m := Nat.ofDigitChars_ten_toDigits
  have digits (m : Nat) : ∀ c ∈ Nat.toDigits 10 m, c.isDigit = true := fun c member =>
    Nat.isDigit_of_mem_toDigits (by decide) (by decide) member
  rw [integer?_eq_some_iff]
  cases n with
  | ofNat m =>
      have text : (toString (Int.ofNat m)).toList = Nat.toDigits 10 m := Nat.toList_repr
      have unsigned : scanSign (Nat.toDigits 10 m) = (false, Nat.toDigits 10 m) := by
        unfold scanSign
        split
        case h_1 rest same => exact absurd (digits m '-' (same ▸ List.mem_cons_self)) (by decide)
        case h_2 rest same => exact absurd (digits m '+' (same ▸ List.mem_cons_self)) (by decide)
        case h_3 => rfl
      rw [text, unsigned]
      exact ⟨Nat.toDigits_ne_nil, digits m, congrArg Int.ofNat (value m)⟩
  | negSucc m =>
      have text : (toString (Int.negSucc m)).toList = '-' :: Nat.toDigits 10 (m + 1) := by
        show ("-" ++ (m + 1).repr).toList = _
        rw [String.toList_append, Nat.toList_repr]
        rfl
      rw [text]
      refine ⟨Nat.toDigits_ne_nil, digits (m + 1), ?_⟩
      show -(digitsValue (Nat.toDigits 10 (m + 1)) : Int) = _
      rw [value]
      rfl

/-! ## Date patterns -/

/-- Digits are taken off the front, at least one of them. -/
theorem scanDigits_drop {width n : Nat} {cs left : List Char}
    (scanned : scanDigits width cs = some (n, left)) : ∃ k, left = cs.drop (k + 1) := by
  simp only [scanDigits] at scanned
  by_cases none : ((cs.take width).takeWhile Char.isDigit).isEmpty = true
  · rw [if_pos none] at scanned
    cases scanned
  · rw [if_neg none] at scanned
    cases scanned
    rw [List.isEmpty_iff] at none
    obtain ⟨d, ds, known⟩ := List.exists_cons_of_ne_nil none
    exact ⟨ds.length, by rw [known, List.length_cons]⟩

/-- Whatever a number is noted as, what is left is behind the first character. -/
theorem subset_of_scanDigits {β : Type} {note : Nat × List Char → β × List Char} {width : Nat}
    {cs left : List Char} {noted : β}
    (scanned : (scanDigits width cs).map note = some (noted, left))
    (kept : ∀ taken, (note taken).2 = taken.2) : left ⊆ cs.drop 1 := by
  obtain ⟨⟨n, taken⟩, found, same⟩ := Option.map_eq_some_iff.mp scanned
  obtain ⟨k, rfl⟩ := scanDigits_drop found
  have rest : cs.drop (k + 1) = left := (kept _).symm.trans (congrArg Prod.snd same)
  rw [← rest]
  exact List.drop_subset_drop_left cs (Nat.le_add_left 1 k)

theorem subset_of_scanYear {first : Char} {rest left : List Char} {n : Int}
    (scanned : scanYear (first :: rest) = some (n, left)) : left ⊆ rest := by
  unfold scanYear at scanned
  split at scanned
  case h_3 => exact subset_of_scanDigits scanned fun _ => rfl
  -- behind a sign
  all_goals
    rename_i cs signed
    cases signed
    have behind := subset_of_scanDigits scanned fun _ => rfl
    exact List.Subset.trans behind (List.drop_subset 1 rest)

/-- An item that takes a number. -/
def Item.isField : Item → Bool
  | .blanks | .literal _ => false
  | _ => true

/-- Behind a number there is nothing but digits. -/
theorem Item.scan_field {item : Item} (field : item.isField = true) {m m' : Moment}
    {cs left : List Char} (counts : Counts cs) (scanned : item.scan m cs = some (m', left)) :
    ∀ c ∈ left, c.isDigit = true := by
  obtain ⟨first, rest, rfl, notBlank, digits⟩ := counts
  have trimmed : Text.trimStart (first :: rest) = first :: rest := by
    rw [Text.trimStart, List.dropWhile_cons_of_neg (by simp [notBlank])]
  have within : left ⊆ rest := by
    cases item with
    | year =>
        simp only [Item.scan, trimmed] at scanned
        obtain ⟨⟨n, taken⟩, found, same⟩ := Option.map_eq_some_iff.mp scanned
        cases same
        exact subset_of_scanYear found
    | month | day | hour | minute | second =>
        simp only [Item.scan, trimmed] at scanned
        exact subset_of_scanDigits scanned fun _ => rfl
    | blanks | literal c => cases field
  exact fun c member => digits c (within member)

/-- A pattern with a mark behind its first number matches no count. -/
theorem Pattern.read?_of_counts {item : Item} (field : item.isField = true) {mark : Char}
    (other : mark.isDigit = false) (more : Pattern) {text : String} (counts : Counts text.toList) :
    Pattern.read? (item :: .literal mark :: more) text = none := by
  have refused : Pattern.scan (item :: .literal mark :: more) Moment.epoch text.toList = none := by
    cases scanned : item.scan Moment.epoch text.toList with
    | none => simp only [Pattern.scan, scanned]; rfl
    | some taken =>
        obtain ⟨m, left⟩ := taken
        have digits := Item.scan_field field counts scanned
        have unmarked : Item.scan (.literal mark) m left = none := by
          cases left with
          | nil => rfl
          | cons d rest =>
              have digit := digits d List.mem_cons_self
              have different : mark ≠ d := by
                rintro rfl
                rw [other] at digit
                cases digit
              exact if_neg different
        simp only [Pattern.scan, scanned, Option.bind_eq_bind, Option.bind_some, unmarked,
          Option.bind_none]
  simp only [Pattern.read?, refused, Option.bind_eq_bind, Option.bind_none]

/-- A count is no date. -/
theorem dateStamp?_of_counts {text : String} (counts : Counts text.toList) :
    dateStamp? text = none := by
  have unread : ∀ p ∈ Pattern.all, p.read? text = none := by
    simp only [Pattern.all, Pattern.joined, List.forall_mem_cons]
    refine ⟨?_, ?_, ?_, ?_, ?_, ?_, ?_, fun _ member => absurd member List.not_mem_nil⟩
    all_goals exact Pattern.read?_of_counts rfl rfl _ counts
  rw [dateStamp?, List.findSome?_eq_none_iff.mpr unread, Option.map_none]

theorem stamp?_of_integer {text : String} {n : Int} (spelled : int64? text = some n) :
    stamp? text = some (unixMillis n) := by
  obtain ⟨m, read, -⟩ := Option.bind_eq_some_iff.mp spelled
  rw [stamp?, dateStamp?_of_counts (counts_of_integer read), spelled, Option.map_some]

/-! ## Units -/

/-- The milliseconds of a count whose unit goes by its digits: with more than ten of them it counts
milliseconds, and else seconds. -/
def millisByDigits (n : Int) : Int := if 10 < digitCount n.natAbs then n else 1000 * n

theorem ten_lt_digitCount_iff (n : Nat) : 10 < digitCount n ↔ 10000000000 ≤ n := by
  have bound : digitCount n ≤ 10 ↔ n < 10 ^ 10 :=
    Nat.length_toDigits_le_iff (by decide) (by decide)
  omega

/-- The range of 64 bits in numbers. -/
theorem isInt64_iff (n : Int) :
    isInt64 n = true ↔ -9223372036854775808 ≤ n ∧ n ≤ 9223372036854775807 := by
  have power : twoPow 63 = 9223372036854775808 := rfl
  simp only [isInt64, power, Bool.and_eq_true, decide_eq_true_eq]
  omega

theorem unixMillis_above {n : Int} (above : maxSeconds < n) : unixMillis n = n := if_pos above

/-- Up to the limit a count is multiplied, within 64 bits. -/
theorem unixMillis_below {n : Int} (below : n ≤ maxSeconds) :
    unixMillis n = (1000 * n).bmod 18446744073709551616 := by
  rw [unixMillis, if_neg (not_lt.mpr below), mul_comm]
  rfl

/-- The product is exact just where 64 bits hold it. -/
theorem unixMillis_eq_mul_iff {n : Int} (below : n ≤ maxSeconds) :
    unixMillis n = 1000 * n ↔ isInt64 (1000 * n) = true := by
  rw [unixMillis_below below, isInt64_iff, Int.bmod_def]
  split <;> omega

/-- A product with 1000 never wraps back to the count, as 999 has no factor in common with the
modulus. -/
theorem mul_bmod_ne {m : Nat} (coprime : m.Coprime 999) {n : Int} (nonzero : n ≠ 0)
    (small : n.natAbs < m) : (1000 * n).bmod m ≠ n := by
  intro same
  have parts : n - 1000 * n = -(999 * n) := by omega
  have divides : (m : Int) ∣ 999 * n := by
    have residue := Int.dvd_bmod_sub_self (x := 1000 * n) (m := m)
    rw [same, parts] at residue
    exact Int.dvd_neg.mp residue
  have whole : m ∣ n.natAbs :=
    Int.natCast_dvd.mp (Int.dvd_of_dvd_mul_right_of_gcd_one divides coprime)
  have large := Nat.le_of_dvd (Int.natAbs_pos.mpr nonzero) whole
  omega

/-- The unit goes by the digits just for counts of at most ten digits, and for counts above the
limit. -/
theorem unixMillis_eq_millisByDigits_iff {n : Int} (fits : isInt64 n = true) :
    unixMillis n = millisByDigits n ↔ n.natAbs < 10000000000 ∨ maxSeconds < n := by
  rw [isInt64_iff] at fits
  have limit : maxSeconds = 10000000000 := rfl
  simp only [millisByDigits, ten_lt_digitCount_iff]
  by_cases above : maxSeconds < n
  · have long : 10000000000 ≤ n.natAbs := by omega
    rw [unixMillis_above above, if_pos long]
    exact iff_of_true rfl (.inr above)
  have below : n ≤ maxSeconds := by omega
  by_cases long : 10000000000 ≤ n.natAbs
  · -- the thousandfold is taken, and the count is what its digits ask for
    rw [unixMillis_below below, if_pos long]
    exact iff_of_false (mul_bmod_ne (by norm_num) (by omega) (by omega)) (by omega)
  · have product : isInt64 (1000 * n) = true := by
      rw [isInt64_iff]
      omega
    rw [(unixMillis_eq_mul_iff below).mpr product, if_neg long]
    exact iff_of_true rfl (.inl (by omega))

/-- Integers of 64 bits are counts of time. Each of them has a spelling, no spelling is taken for a
date, and all spellings give one time stamp: the count itself if it is above the limit, and else
1000 times the count, wrapped to 64 bits where these do not hold the product. So the unit goes by
the number of digits just for counts of at most ten digits and for those above the limit; of the
limit itself, and of any count before 1970 with more digits, the thousandfold is taken all the
same. -/
theorem counts_are_read {n : Int} (fits : isInt64 n = true) :
    int64? (toString n) = some n ∧
    (∀ text, int64? text = some n → stamp? text = some (unixMillis n)) ∧
    (maxSeconds < n → unixMillis n = n) ∧
    (n ≤ maxSeconds → (unixMillis n = 1000 * n ↔ isInt64 (1000 * n) = true)) ∧
    (isInt64 (1000 * n) = true ↔ -9223372036854775 ≤ n ∧ n ≤ 9223372036854775) ∧
    (unixMillis n = millisByDigits n ↔ n.natAbs < 10000000000 ∨ maxSeconds < n) := by
  refine ⟨?_, fun _ spelled => stamp?_of_integer spelled, unixMillis_above,
    unixMillis_eq_mul_iff, ?_, unixMillis_eq_millisByDigits_iff fits⟩
  · rw [int64?, integer?_toString]
    exact if_pos fits
  · rw [isInt64_iff]
    omega

/-- A day before 1970, with a sign and zeros in front of its digits. -/
theorem counts_are_read_day :
    isInt64 (-86400) = true ∧ int64? "-0086400" = some (-86400) ∧
    stamp? "-0086400" = some (-86400000) ∧ unixMillis (-86400) = millisByDigits (-86400) := by
  have fits : isInt64 (-86400) = true := by decide
  have spelled : int64? "-0086400" = some (-86400) := by decide
  obtain ⟨-, read, -, -, -, unit⟩ := counts_are_read fits
  exact ⟨fits, spelled, read _ spelled, unit.mpr (.inl (by decide))⟩

/-- The limit has eleven digits and is taken for seconds. So is a count of milliseconds before 1970,
and the least count of all, whose thousandfold 64 bits do not hold. -/
theorem long_counts_multiplied :
    digitCount 10000000000 = 11 ∧ stamp? "10000000000" = some 10000000000000 ∧
    digitCount 1705312800000 = 13 ∧ stamp? "-1705312800000" = some (-1705312800000000) ∧
    isInt64 (-9223372036854775808) = true ∧ isInt64 (1000 * -9223372036854775808) = false ∧
    stamp? "-9223372036854775808" = some 0 := by
  decide

end Chartist.Calendar
