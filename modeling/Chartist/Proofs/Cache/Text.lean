import Mathlib.Data.List.Basic
import Mathlib.Data.Set.Function

/-!
# Texts of parameters

Parameters are listed with commas between them, so a list tells its parameters apart as long as
no text of a parameter holds a comma (`Plain`). A way to write values is `Legible` if it is
plain and writes no two values alike: so are counts, integers and truth values, and a list that
ends in a legible value tells its last parameter (`Legible.snoc_inj`). Where only some values are
met, it is enough that these are legible (`LegibleOn`).
-/

namespace Chartist

/-! ## Lists -/

/-- The text has no comma. -/
def Plain (s : String) : Prop := ',' ∉ s.toList

theorem Plain.append {s t : String} (hs : Plain s) (ht : Plain t) : Plain (s ++ t) := by
  simpa [Plain] using ⟨hs, ht⟩

/-- What stands before the first place of a character is fixed, and so is what follows. -/
theorem split_at_first {a : Char} {x x' y y' : List Char} (hx : a ∉ x) (hx' : a ∉ x')
    (equal : x ++ a :: y = x' ++ a :: y') : x = x' ∧ y = y' := by
  induction x generalizing x' with
  | nil =>
      cases x' with
      | nil => exact ⟨rfl, (List.cons.inj equal).2⟩
      | cons c rest => exact absurd ((List.cons.inj equal).1 ▸ List.mem_cons_self) hx'
  | cons c rest ih =>
      cases x' with
      | nil => exact absurd ((List.cons.inj equal).1 ▸ List.mem_cons_self) hx
      | cons c' rest' =>
          obtain ⟨same, tails⟩ := List.cons.inj equal
          obtain ⟨rests, ends⟩ := ih (fun member => hx (List.mem_cons_of_mem _ member))
            (fun member => hx' (List.mem_cons_of_mem _ member)) tails
          exact ⟨by rw [same, rests], ends⟩

/-- The last parameter in a text is what follows its last comma. -/
theorem Plain.snoc_inj {s s' t t' : String} (ht : Plain t) (ht' : Plain t')
    (equal : s ++ "," ++ t = s' ++ "," ++ t') : s = s' ∧ t = t' := by
  have chars : s.toList ++ ',' :: t.toList = s'.toList ++ ',' :: t'.toList := by
    simpa using congrArg String.toList equal
  -- read from the end, the last comma is the first one
  have reversed : t.toList.reverse ++ ',' :: s.toList.reverse =
      t'.toList.reverse ++ ',' :: s'.toList.reverse := by
    simpa using congrArg List.reverse chars
  obtain ⟨tails, heads⟩ := split_at_first (by simpa [Plain] using ht)
    (by simpa [Plain] using ht') reversed
  exact ⟨String.toList_inj.mp (List.reverse_inj.mp heads),
    String.toList_inj.mp (List.reverse_inj.mp tails)⟩

/-- Some values are written without a comma, and no two of them alike. -/
structure LegibleOn {τ : Type} (text : τ → String) (values : Set τ) : Prop where
  injective : Set.InjOn text values
  plain : ∀ x ∈ values, Plain (text x)

/-- A list of parameters tells what precedes the last one, and its value. -/
theorem LegibleOn.snoc_inj {τ : Type} {text : τ → String} {values : Set τ}
    (legible : LegibleOn text values) {s s' : String} {x x' : τ} (known : x ∈ values)
    (known' : x' ∈ values) (equal : s ++ "," ++ text x = s' ++ "," ++ text x') :
    s = s' ∧ x = x' := by
  obtain ⟨heads, lasts⟩ := (legible.plain x known).snoc_inj (legible.plain x' known') equal
  exact ⟨heads, legible.injective known known' lasts⟩

/-- Values are written without a comma, and no two of them alike. -/
structure Legible {τ : Type} (text : τ → String) : Prop where
  injective : Function.Injective text
  plain : ∀ x, Plain (text x)

theorem Legible.on {τ : Type} {text : τ → String} (legible : Legible text) (values : Set τ) :
    LegibleOn text values where
  injective := legible.injective.injOn
  plain x _ := legible.plain x

theorem Legible.snoc_inj {τ : Type} {text : τ → String} (legible : Legible text) {s s' : String}
    {x x' : τ} (equal : s ++ "," ++ text x = s' ++ "," ++ text x') : s = s' ∧ x = x' :=
  (legible.on .univ).snoc_inj trivial trivial equal

/-! ## Whole numbers and truth values -/

theorem not_mem_digits {c : Char} (other : c.isDigit = false) (n : Nat) :
    c ∉ Nat.toDigits 10 n := by
  intro member
  have digit := Nat.isDigit_of_mem_toDigits (by decide) (by decide) member
  rw [other] at digit
  exact Bool.false_ne_true digit

theorem legible_nat : Legible (toString : Nat → String) where
  injective m n same := by
    have digits : Nat.toDigits 10 m = Nat.toDigits 10 n := by
      simpa only [Nat.toString_eq_repr, Nat.toList_repr] using congrArg String.toList same
    rw [← Nat.ofDigitChars_ten_toDigits (n := m), digits, Nat.ofDigitChars_ten_toDigits]
  plain n := by
    rw [Plain, Nat.toString_eq_repr, Nat.toList_repr]
    exact not_mem_digits rfl n

/-- Only the text of a negative number has a sign. -/
theorem legible_int : Legible (toString : Int → String) where
  injective a b same := by
    have unsigned (m n : Nat) : m.repr ≠ "-" ++ (n + 1).repr := by
      intro same
      refine not_mem_digits (c := '-') rfl m ?_
      rw [← Nat.toList_repr, same]
      simp
    cases a with
    | ofNat m =>
        cases b with
        | ofNat n => exact congrArg Int.ofNat (legible_nat.injective same)
        | negSucc n => exact absurd same (unsigned m n)
    | negSucc m =>
        cases b with
        | ofNat n => exact absurd same.symm (unsigned n m)
        | negSucc n =>
            have signed : "-" ++ (m + 1).repr = "-" ++ (n + 1).repr := same
            have digits : (m + 1).repr = (n + 1).repr := by simpa using signed
            exact congrArg Int.negSucc (Nat.succ.inj (legible_nat.injective digits))
  plain a := by
    cases a with
    | ofNat n => exact legible_nat.plain n
    | negSucc n => exact Plain.append (s := "-") (by simp [Plain]) (legible_nat.plain (n + 1))

theorem legible_bool : Legible (toString : Bool → String) where
  injective a b same := by
    cases a <;> cases b <;> first | rfl | exact absurd same (by decide)
  plain b := by
    cases b <;> simp [Plain, toString]

end Chartist
