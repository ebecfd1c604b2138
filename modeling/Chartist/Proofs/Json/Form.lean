import Chartist.Catalog.Config
import Chartist.Proofs.Catalog
import Mathlib.Algebra.Group.Nat.Defs

/-!
# Forms that read back what they write

Reading is more liberal than writing, so a form is no inverse of itself: a count that does not fit
its bits is written and not read, and a choice is read from more than its name. But what was read
fits, and is written as something that reads as the same (`Form.RoundTrips`).
-/

namespace Chartist.Json

variable {α τ : Type}

/-- What is read off a JSON value is written as one that it is read off again. -/
def Form.RoundTrips (f : Form α τ) : Prop :=
  ∀ j x, f.decode j = .ok x → f.decode (f.encode x) = .ok x

/-- A JSON value that was read and written is not changed by doing so again. -/
theorem Form.RoundTrips.normalize_idem {f : Form α τ} (roundTrips : f.RoundTrips) {j written : Json α}
    (done : f.normalize j = .ok written) : f.normalize written = .ok written := by
  cases decoded : f.decode j with
  | error e =>
      simp only [Form.normalize, decoded] at done
      cases done
  | ok x =>
      simp only [Form.normalize, decoded] at done
      cases done
      simp only [Form.normalize, roundTrips j x decoded]
      rfl

namespace Form

/-- The form reads back everything it writes. -/
def Total (f : Form α τ) : Prop := ∀ x, f.decode (f.encode x) = .ok x

@[simp]
theorem Total.roundTrips {f : Form α τ} (total : f.Total) : f.RoundTrips := fun _ x _ => total x

@[simp]
theorem total_boolean : (boolean : Form α Bool).Total := fun _ => rfl

@[simp]
theorem total_string : (string : Form α String).Total := fun _ => rfl

@[simp]
theorem total_any : (any : Form α (Json α)).Total := fun _ => rfl

/-- A whole number that was read as a number is written with a point, and is the same number. -/
@[simp]
theorem total_number [Scalar α] : (number : Form α α).Total := fun _ => rfl

/-- A count that fits its bits is read back. -/
theorem natOfBits_count {bits n : Nat} (fits : n < 2 ^ bits) :
    natOfBits bits (count n : Json α) = .ok n := by
  have counts : Decimal.isCount bits n = true := by
    simp only [Decimal.isCount, Bool.and_eq_true, decide_eq_true_eq]
    exact ⟨Int.natCast_nonneg n, Int.ofNat_lt.mpr fits⟩
  simp only [count, natOfBits, if_pos counts, Int.toNat_natCast]

/-- A count that was read fits its bits. -/
theorem lt_of_natOfBits {bits n : Nat} {j : Json α} (read : natOfBits bits j = .ok n) :
    n < 2 ^ bits := by
  cases j with
  | int i =>
      simp only [natOfBits] at read
      split at read
      next fits =>
        cases read
        simp only [Decimal.isCount, Bool.and_eq_true, decide_eq_true_eq] at fits
        exact (Int.toNat_lt fits.1).mpr fits.2
      next => cases read
  | _ => cases read

theorem decode_nat {n : Nat} (fits : n < 2 ^ 64) :
    (nat : Form α Nat).decode (nat.encode n) = .ok n := by
  simp only [nat, Json.nat]
  exact natOfBits_count fits

theorem decode_nat32 {n : Nat} (fits : n < 2 ^ 32) :
    (nat32 : Form α Nat).decode (nat32.encode n) = .ok n := by
  simp only [nat32]
  exact natOfBits_count fits

@[simp]
theorem roundTrips_nat : (nat : Form α Nat).RoundTrips := by
  intro j n read
  exact decode_nat (lt_of_natOfBits read)

theorem roundTrips_nat32 : (nat32 : Form α Nat).RoundTrips := by
  intro j n read
  exact decode_nat32 (lt_of_natOfBits read)

@[simp]
theorem roundTrips_int64 : (int64 : Form α Int).RoundTrips := by
  intro j n read
  cases j with
  | int i =>
      simp only [int64, Json.int64] at read
      split at read
      next fits =>
        cases read
        simp only [int64, Json.int64, if_pos fits]
      next => cases read
  | _ => cases read

theorem roundTrips_list {f : Form α τ} (roundTrips : f.RoundTrips) : (list f).RoundTrips := by
  intro j xs read
  cases j with
  | arr items =>
      simp only [list, listOf] at read
      simp only [list, listOf, Json.list]
      induction items generalizing xs with
      | nil =>
          cases read
          rfl
      | cons item rest ih =>
          rw [List.mapM_cons] at read
          obtain ⟨x, first, read⟩ := exists_of_bind_ok read
          obtain ⟨later, rest, read⟩ := exists_of_bind_ok read
          cases read
          rw [List.map_cons, List.mapM_cons, roundTrips item x first]
          simp only [bind, Except.bind, ih later rest]
          rfl
  | _ => cases read

theorem named_name {all : List τ} {name : τ → String} {s : String} {x : τ}
    (read : named all name s = .ok x) : named all name (name x) = .ok x := by
  unfold named at read
  split at read
  next found =>
    cases read
    have same : name x = s := by simpa using List.find?_some found
    rw [named, same, found]
  next => cases read

/-- A choice is written by the name that it was found by, also where others have that name. -/
theorem roundTrips_choice (all : List τ) (name : τ → String) :
    (choice all name : Form α τ).RoundTrips := by
  intro j x read
  simp only [choice, Json.choice] at read
  split at read
  next => exact named_name read
  next => exact named_name read
  next => cases read

end Form

end Chartist.Json

namespace Chartist

open Json

variable {α : Type}

/-- The names of the methods are in lower case, to which a text is brought before it is looked up. -/
theorem AverageMethod.lower_name (m : AverageMethod) : m.name.map Char.toLower = m.name := by
  rw [← String.toList_inj, String.toList_map]
  cases m <;> decide

/-- A method is found by its name, so it is read back whichever code or name it was read from. -/
@[simp]
theorem AverageMethod.total_form : (AverageMethod.form : Form α AverageMethod).Total := by
  intro m
  have found : AverageMethod.all.find? (·.name == m.name) = some m := by
    cases m <;> decide
  simp only [AverageMethod.form, AverageMethod.ofText, m.lower_name, found]
  rfl

@[simp]
theorem PriceSource.total_form : (PriceSource.form : Form α PriceSource).Total := by
  intro source
  cases source <;> rfl

@[simp]
theorem VolatilityMeasure.total_form : (VolatilityMeasure.form : Form α VolatilityMeasure).Total := by
  intro measure
  cases measure <;> rfl

@[simp]
theorem ChannelLine.total_form : (ChannelLine.form : Form α ChannelLine).Total := by
  intro line
  cases line <;> rfl

end Chartist
