import Chartist.Proofs.Causal.Stop
import Chartist.Proofs.Exact.Basic

/-!
# The best price

A price is worth itself to a long position and its negative to a short one (`Position.worth`), so
of two prices the better one is worth more, whichever the direction. The running best of a list is
its best value so far (`Position.bestFrom_getElem?`). So the favourable extreme of a position is the
best of the entry price and the prices since (`Position.isBest_extreme`), and a ratcheted level is
the best candidate so far (`Stop.ratchet_getElem?`).
-/

namespace Chartist

open Scalar

variable {α K : Type} [Scalar α] [Field K] [LinearOrder K]

namespace Position

/-- A price is at least as good for a position as another one: no lower for a long position, no
higher for a short one. -/
def noWorse (long : Bool) (a b : α) : Bool := if long then le b a else le a b

/-- The best of a list of values: the highest for a long position, the lowest for a short one. -/
structure IsBest (long : Bool) (best : α) (values : List α) : Prop where
  mem : best ∈ values
  noWorse : ∀ x ∈ values, noWorse long best x = true

/-- What a price is worth to a position. -/
def worth (long : Bool) (x : K) : K := if long then x else -x

omit [Field K] [LinearOrder K] in
/-- The best of more values is no worse. -/
theorem IsBest.noWorse_of_subset {long : Bool} {a b : α} {some more : List α}
    (first : IsBest long a some) (second : IsBest long b more) (sub : some ⊆ more) :
    Position.noWorse long b a = true :=
  second.noWorse a (sub first.mem)

section Numbers

variable [IsStrictOrderedRing K] {num : K → α} (exact : Exact num) (long : Bool)
include exact

theorem noWorse_num (x y : K) :
    noWorse long (num x) (num y) = decide (worth long y ≤ worth long x) := by
  cases long <;> simp [noWorse, worth, exact.le]

theorem better_num (ordinary : Ordinary num) (x y : K) :
    better long (num x) (num y) = num (if worth long x < worth long y then y else x) := by
  cases long with
  | false =>
      simp only [better, minNum, worth, ordinary.isNaN, exact.lt, Bool.false_eq_true, if_false,
        decide_eq_true_eq, neg_lt_neg_iff]
      split <;> rfl
  | true =>
      simp only [better, maxNum, worth, ordinary.isNaN, exact.lt, Bool.false_eq_true, if_false,
        if_true, decide_eq_true_eq]
      split <;> rfl

/-! ## Finite prices -/

section Finite

variable {long}

theorem noWorse_refl {a : α} (finite : isFinite a = true) : noWorse long a a = true := by
  obtain ⟨x, rfl⟩ := (exact.isFinite a).mp finite
  rw [noWorse_num exact, decide_eq_true_eq]

theorem noWorse_trans {a b c : α} (finiteA : isFinite a = true) (finiteB : isFinite b = true)
    (finiteC : isFinite c = true) (first : noWorse long a b = true)
    (second : noWorse long b c = true) : noWorse long a c = true := by
  obtain ⟨x, rfl⟩ := (exact.isFinite a).mp finiteA
  obtain ⟨y, rfl⟩ := (exact.isFinite b).mp finiteB
  obtain ⟨z, rfl⟩ := (exact.isFinite c).mp finiteC
  rw [noWorse_num exact, decide_eq_true_eq] at first second ⊢
  exact second.trans first

/-- Finite prices that are no worse than each other are the same. -/
theorem eq_of_noWorse {a b : α} (finiteA : isFinite a = true) (finiteB : isFinite b = true)
    (first : noWorse long a b = true) (second : noWorse long b a = true) : a = b := by
  obtain ⟨x, rfl⟩ := (exact.isFinite a).mp finiteA
  obtain ⟨y, rfl⟩ := (exact.isFinite b).mp finiteB
  rw [noWorse_num exact, decide_eq_true_eq] at first second
  -- the worth of a price tells it apart
  have same : worth long x = worth long y := le_antisymm second first
  cases long with
  | false => rw [neg_injective same]
  | true => exact congrArg num same

/-- The better of two prices is one of them, and no worse than either. -/
theorem isBest_better (ordinary : Ordinary num) {a b : α} (finiteA : isFinite a = true)
    (finiteB : isFinite b = true) : IsBest long (better long a b) [a, b] := by
  obtain ⟨x, rfl⟩ := (exact.isFinite a).mp finiteA
  obtain ⟨y, rfl⟩ := (exact.isFinite b).mp finiteB
  rw [better_num exact long ordinary]
  split
  next less =>
    refine ⟨by simp, ?_⟩
    simp [noWorse_num exact, less.le]
  next notLess =>
    refine ⟨by simp, ?_⟩
    simp [noWorse_num exact, not_lt.mp notLess]

theorem finite_better (ordinary : Ordinary num) {a b : α} (finiteA : isFinite a = true)
    (finiteB : isFinite b = true) : isFinite (better long a b) = true := by
  have first : IsBest long (better long a b) [a, b] :=
    isBest_better exact ordinary finiteA finiteB
  rcases List.mem_pair.mp first.mem with same | same
  · rwa [same]
  · rwa [same]

/-- The best of two prices, and the best of that one and more, is the best of all of them. -/
theorem IsBest.step (ordinary : Ordinary num) {a x best : α} {values : List α}
    (finiteA : isFinite a = true) (finiteX : isFinite x = true)
    (finite : ∀ y ∈ values, isFinite y = true)
    (later : IsBest long best (better long a x :: values)) :
    IsBest long best (a :: x :: values) := by
  have first : IsBest long (better long a x) [a, x] :=
    isBest_better exact ordinary finiteA finiteX
  have finiteFirst : isFinite (better long a x) = true :=
    finite_better exact ordinary finiteA finiteX
  have finiteBest : isFinite best = true := by
    rcases List.mem_cons.mp later.mem with same | member
    · rwa [same]
    · exact finite best member
  have known := later.noWorse _ (List.mem_cons_self ..)
  constructor
  · -- what is best is the better of the first two prices, or comes later
    rcases List.mem_cons.mp later.mem with same | member
    · rw [same]
      exact List.mem_append_left values first.mem
    · exact List.mem_cons_of_mem a (List.mem_cons_of_mem x member)
  · intro y member
    rcases List.mem_append.mp (show y ∈ [a, x] ++ values from member) with pair | rest
    · have finiteY : isFinite y = true := by
        rcases List.mem_pair.mp pair with rfl | rfl
        · exact finiteA
        · exact finiteX
      exact noWorse_trans exact finiteBest finiteFirst finiteY known (first.noWorse y pair)
    · exact later.noWorse y (List.mem_cons_of_mem _ rest)

/-! ## Running bests -/

/-- Each running best is the best of the start and the values so far. -/
theorem bestFrom_getElem? (ordinary : Ordinary num) {best : α} (finiteBest : isFinite best = true)
    {values : List α} (finite : ∀ x ∈ values, isFinite x = true) {i : Nat}
    (inside : i < values.length) :
    ∃ v, (bestFrom long best values)[i]? = some v ∧
      IsBest long v (best :: values.take (i + 1)) := by
  induction values generalizing best i with
  | nil => exact absurd inside (Nat.not_lt_zero i)
  | cons x rest ih =>
      obtain ⟨here, later⟩ := List.forall_mem_cons.mp finite
      cases i with
      | zero => exact ⟨_, rfl, isBest_better exact ordinary finiteBest here⟩
      | succ i =>
          have finiteFirst : isFinite (better long best x) = true :=
            finite_better exact ordinary finiteBest here
          obtain ⟨v, known, isBest⟩ := ih finiteFirst later (Nat.lt_of_succ_lt_succ inside)
          have finiteLater : ∀ y ∈ rest.take (i + 1), isFinite y = true := fun y member =>
            later y (List.mem_of_mem_take member)
          exact ⟨v, known, IsBest.step exact ordinary finiteBest here finiteLater isBest⟩

end Finite

end Numbers

/-! ## Favourable extremes -/

section Extremes

variable (entryPrice : α) (entryBar : Nat) (long : Bool) (highs lows : List α)

/-- The prices that the extremes of a position follow. -/
def sidePrices : List α := if long then highs else lows

/-- The prices of a side from entry to a bar. -/
def pricesSince (i : Nat) : List α := ((sidePrices long highs lows).take (i + 1)).drop entryBar

omit [Scalar α]

theorem favorableExtreme_add (p : Position α) (k : Nat) :
    p.favorableExtreme (p.entryBar + k) = p.extremes[k]? := by
  rw [favorableExtreme, if_neg (by omega), Nat.add_sub_cancel_left]

theorem length_sidePrices : min highs.length lows.length ≤ (sidePrices long highs lows).length := by
  cases long
  · exact Nat.min_le_right _ _
  · exact Nat.min_le_left _ _

/-- The prices from entry to a bar are among those to a later one. -/
theorem pricesSince_subset {i j : Nat} (before : i ≤ j) :
    pricesSince entryBar long highs lows i ⊆ pricesSince entryBar long highs lows j := by
  rw [pricesSince, pricesSince, List.drop_take, List.drop_take]
  exact List.take_subset_take_left _ (by omega)

variable [Scalar α]

/-- The extreme is known from entry on, as far as highs and lows are. -/
theorem isSome_favorableExtreme (i : Nat) :
    ((new entryPrice entryBar long highs lows).favorableExtreme i).isSome = true ↔
      entryBar ≤ i ∧ i < highs.length ∧ i < lows.length := by
  have reach := length_sidePrices long highs lows
  by_cases before : i < entryBar
  · simp [favorableExtreme, new, before]
  · obtain ⟨k, rfl⟩ := Nat.exists_eq_add_of_le (Nat.le_of_not_lt before)
    have known := favorableExtreme_add (new entryPrice entryBar long highs lows) k
    simp only [new] at known ⊢
    rw [known, isSome_getElem?, (causal_bestFrom long entryPrice).length, List.length_drop]
    change k < (List.take _ (sidePrices long highs lows)).length - entryBar ↔ _
    rw [List.length_take]
    omega

variable {entryPrice entryBar long highs lows} [IsStrictOrderedRing K] {num : K → α}
  (exact : Exact num)
  (ordinary : Ordinary num) (finiteEntry : isFinite entryPrice = true)
  (finiteSide : ∀ x ∈ sidePrices long highs lows, isFinite x = true)
include exact ordinary finiteEntry finiteSide

/-- The extreme is the best of the entry price and the prices from entry on. -/
theorem isBest_extreme {i : Nat} {extreme : α}
    (known : (new entryPrice entryBar long highs lows).favorableExtreme i = some extreme) :
    IsBest long extreme (entryPrice :: pricesSince entryBar long highs lows i) := by
  obtain ⟨after, belowHighs, belowLows⟩ := (isSome_favorableExtreme entryPrice entryBar long
    highs lows i).mp (known ▸ rfl)
  have reach := length_sidePrices long highs lows
  -- bars are counted from entry on, as in the list of extremes
  obtain ⟨k, rfl⟩ := Nat.exists_eq_add_of_le after
  let values := ((sidePrices long highs lows).take (min highs.length lows.length)).drop entryBar
  have finite : ∀ x ∈ values, isFinite x = true := fun x member =>
    finiteSide x (List.mem_of_mem_take (List.mem_of_mem_drop member))
  have inside : k < values.length := by
    rw [List.length_drop, List.length_take]
    omega
  obtain ⟨v, found, isBest⟩ := bestFrom_getElem? exact ordinary finiteEntry finite inside
  have same : extreme = v := by
    have read := favorableExtreme_add (new entryPrice entryBar long highs lows) k
    exact Option.some_injective _ ((known.symm.trans read).trans found)
  have prices : values.take (k + 1) = pricesSince entryBar long highs lows (entryBar + k) := by
    rw [List.take_drop, List.take_take, pricesSince, Nat.min_eq_left (by omega), Nat.add_assoc]
  rw [same, ← prices]
  exact isBest

theorem finite_extreme {i : Nat} {extreme : α}
    (known : (new entryPrice entryBar long highs lows).favorableExtreme i = some extreme) :
    isFinite extreme = true := by
  have isBest := isBest_extreme exact ordinary finiteEntry finiteSide known
  rcases List.mem_cons.mp isBest.mem with rfl | member
  · exact finiteEntry
  · exact finiteSide extreme (List.mem_of_mem_take (List.mem_of_mem_drop member))

/-- The extreme of a later bar is no worse. -/
theorem noWorse_extreme {i j : Nat} (before : i ≤ j) {a b : α}
    (knownA : (new entryPrice entryBar long highs lows).favorableExtreme i = some a)
    (knownB : (new entryPrice entryBar long highs lows).favorableExtreme j = some b) :
    noWorse long b a = true := by
  have isBestA := isBest_extreme exact ordinary finiteEntry finiteSide knownA
  have isBestB := isBest_extreme exact ordinary finiteEntry finiteSide knownB
  refine isBestA.noWorse_of_subset isBestB ?_
  exact List.cons_subset_cons entryPrice (pricesSince_subset entryBar long highs lows before)

end Extremes

end Position

/-- Each ratcheted level is the best candidate so far. -/
theorem Stop.ratchet_getElem? [IsStrictOrderedRing K] {num : K → α} (exact : Exact num)
    (ordinary : Ordinary num) {long : Bool} {values : List α}
    (finite : ∀ x ∈ values, isFinite x = true) {i : Nat} (inside : i < values.length) :
    ∃ v, (ratchet long values)[i]? = some v ∧ Position.IsBest long v (values.take (i + 1)) := by
  cases values with
  | nil => exact absurd inside (Nat.not_lt_zero i)
  | cons first rest =>
      obtain ⟨here, later⟩ := List.forall_mem_cons.mp finite
      cases i with
      | zero =>
          refine ⟨first, rfl, List.mem_cons_self .., ?_⟩
          intro x member
          rw [List.mem_singleton.mp member]
          exact Position.noWorse_refl exact here
      | succ i =>
          exact Position.bestFrom_getElem? exact ordinary here later
            (Nat.lt_of_succ_lt_succ inside)

end Chartist
