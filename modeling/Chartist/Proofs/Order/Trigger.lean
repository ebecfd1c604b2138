import Chartist.Proofs.Exact.Stop
import Chartist.Proofs.Order.Binary64

/-!
# The levels that triggers refer to

A bar whose favourable extreme is unknown has no level, and zero stands in its place. No positive
price falls to zero, so a long position is never stopped there. Every positive price reaches zero
from above, so a short position is stopped on the first bar behind those that it is known for, if it
has not been stopped before (`Stop.triggers_without_level_iff`).
-/

namespace Chartist

open Position Scalar

variable {α : Type} [Scalar α]

/-- The prices of a bar that levels are compared with are positive. -/
structure Bar.Priced (bar : Bar α) : Prop where
  high : lt 0 bar.high = true
  low : lt 0 bar.low = true

namespace Stop

/-- The bar at an index reaches the level there. -/
def Reached (long : Bool) (bars : Bars α) (levels : Series α) (i : Nat) : Prop :=
  ∃ bar level, bars[i]? = some bar ∧ levels[i]? = some level ∧ reaches long bar level = true

/-- The trigger is the first bar from entry on that reaches its level. -/
theorem firstTrigger_eq_some_iff (bars : Bars α) (levels : Series α) (position : Position α)
    (k : Nat) :
    firstTrigger bars levels position = some k ↔
      position.entryBar ≤ k ∧ Reached position.long bars levels k ∧
        ∀ i, position.entryBar ≤ i → i < k → ¬ Reached position.long bars levels i := by
  -- bars are counted from entry on, as in the list that is searched
  let since := (bars.zip levels).drop position.entryBar
  have reached (m : Nat) : Reached position.long bars levels (position.entryBar + m) ↔
      ∃ inside : m < since.length,
        reaches position.long since[m].1 since[m].2 = true := by
    constructor
    · rintro ⟨bar, level, isBar, isLevel, reaches⟩
      have here : since[m]? = some (bar, level) := by
        rw [List.getElem?_drop, List.getElem?_zip_eq_some]
        exact ⟨isBar, isLevel⟩
      obtain ⟨inside, same⟩ := List.getElem?_eq_some_iff.mp here
      exact ⟨inside, by rw [same]; exact reaches⟩
    · rintro ⟨inside, reaches⟩
      have here := List.getElem?_eq_getElem inside
      rw [List.getElem?_drop, List.getElem?_zip_eq_some] at here
      exact ⟨_, _, here.1, here.2, reaches⟩
  rw [firstTrigger, Option.map_eq_some_iff]
  constructor
  · rintro ⟨m, found, rfl⟩
    obtain ⟨inside, reaches, first⟩ := List.findIdx?_eq_some_iff_getElem.mp found
    rw [Nat.add_comm]
    refine ⟨Nat.le_add_right _ _, (reached m).mpr ⟨inside, reaches⟩, ?_⟩
    intro i after before
    obtain ⟨j, rfl⟩ := Nat.exists_eq_add_of_le after
    rw [reached]
    rintro ⟨_, earlier⟩
    exact first j (by omega) earlier
  · rintro ⟨after, here, first⟩
    obtain ⟨m, rfl⟩ := Nat.exists_eq_add_of_le after
    obtain ⟨inside, reaches⟩ := (reached m).mp here
    refine ⟨m, List.findIdx?_eq_some_iff_getElem.mpr ⟨inside, reaches, ?_⟩, Nat.add_comm _ _⟩
    intro j before earlier
    exact first (position.entryBar + j) (Nat.le_add_right _ _) (by omega)
      ((reached j).mpr ⟨before.trans inside, earlier⟩)

omit [Scalar α] in
/-- The extreme is unknown from the first bar behind the list of extremes on. -/
theorem favorableExtreme_eq_none_iff {position : Position α} {k : Nat}
    (after : position.entryBar ≤ k) :
    position.favorableExtreme k = none ↔
      position.entryBar + position.extremes.length ≤ k := by
  obtain ⟨m, rfl⟩ := Nat.exists_eq_add_of_le after
  rw [favorableExtreme_add, List.getElem?_eq_none_iff]
  omega

variable {L : Type} [LinearOrder L] {place : α → L} (ordered : Ordered place)
  (incomparable : Incomparable α)
include ordered incomparable

/-- Every bar with positive prices reaches zero from above, and none from below. -/
theorem reaches_zero {bar : Bar α} (priced : bar.Priced) (long : Bool) :
    reaches long bar 0 = !long := by
  cases long with
  | true =>
      obtain ⟨zero, number⟩ := numbers_of_compares incomparable.lt priced.low
      have above := priced.low
      rw [ordered.lt _ _ zero number, decide_eq_true_eq] at above
      show le bar.low 0 = false
      rw [ordered.le _ _ number zero, decide_eq_false_iff_not, not_le]
      exact above
  | false =>
      obtain ⟨zero, number⟩ := numbers_of_compares incomparable.lt priced.high
      have above := priced.high
      rw [ordered.lt _ _ zero number, decide_eq_true_eq] at above
      show le 0 bar.high = true
      rw [ordered.le _ _ zero number, decide_eq_true_eq]
      exact above.le

variable [Fingerprint α] (s : Stop α) (position : Position α) {bars : Bars α}
  (priced : ∀ bar ∈ bars, bar.Priced)
include priced

/-- A bar whose extreme is unknown is reached just by a short position. -/
theorem reached_without_level_iff {i : Nat} (inside : i < bars.length)
    (unknown : position.favorableExtreme i = none) :
    Reached position.long bars (s.compute bars position).uncached i ↔ position.long = false := by
  have isBar := List.getElem?_eq_getElem inside
  have isZero : (s.compute bars position).uncached[i]? = some 0 := by
    rw [uncached_compute]
    exact levels_outside inside unknown
  have reach := reaches_zero ordered incomparable (priced _ (List.getElem_mem inside)) position.long
  constructor
  · rintro ⟨bar, level, sameBar, sameLevel, reaches⟩
    obtain rfl := Option.some_injective _ (isBar.symm.trans sameBar)
    obtain rfl := Option.some_injective _ (isZero.symm.trans sameLevel)
    rw [reach, Bool.not_eq_true'] at reaches
    exact reaches
  · intro short
    refine ⟨_, _, isBar, isZero, ?_⟩
    rw [reach, short]
    rfl

/-- On bars with positive prices, a trigger refers to a bar without a level exactly if the position
is short, the bar is the first one behind those that the position is known for, and none of these
reaches its level. So a long position, or one that is known for all bars, is only ever stopped at a
level that was set. -/
theorem triggers_without_level_iff (k : Nat) :
    let levels := (s.compute bars position).uncached
    firstTrigger bars levels position = some k ∧ position.favorableExtreme k = none ↔
      position.long = false ∧ k = position.entryBar + position.extremes.length ∧
        k < bars.length ∧
        ∀ i, position.entryBar ≤ i → i < k → ¬ Reached position.long bars levels i := by
  intro levels
  rw [firstTrigger_eq_some_iff]
  constructor
  · rintro ⟨⟨after, here, first⟩, unknown⟩
    have inside : k < bars.length := by
      obtain ⟨bar, level, isBar, -⟩ := here
      exact (List.getElem?_eq_some_iff.mp isBar).1
    have short : position.long = false :=
      (reached_without_level_iff ordered incomparable s position priced inside unknown).mp here
    have behind := (favorableExtreme_eq_none_iff after).mp unknown
    refine ⟨short, ?_, inside, first⟩
    -- an earlier bar without a level would have been reached as well
    by_contra later
    have earlier : position.entryBar + position.extremes.length < k := by omega
    refine first _ (Nat.le_add_right _ _) earlier ?_
    refine (reached_without_level_iff ordered incomparable s position priced
      (earlier.trans inside) ?_).mpr short
    exact (favorableExtreme_eq_none_iff (Nat.le_add_right _ _)).mpr le_rfl
  · rintro ⟨short, isFirst, inside, first⟩
    have after : position.entryBar ≤ k := isFirst ▸ Nat.le_add_right _ _
    have unknown : position.favorableExtreme k = none :=
      (favorableExtreme_eq_none_iff after).mpr isFirst.ge
    refine ⟨⟨after, ?_, first⟩, unknown⟩
    exact (reached_without_level_iff ordered incomparable s position priced inside
      unknown).mpr short

omit [Scalar α] ordered incomparable [Fingerprint α] priced

/-- A short position of the second of four bars, known for one bar more: its levels are 105 and
102.9, then zero, which is reached at once. -/
theorem triggers_without_level_binary64 :
    let bars : Bars Float :=
      [⟨0, 100, 101, 99, 100, 10⟩, ⟨60, 100, 102, 100, 101, 10⟩, ⟨120, 101, 102, 98, 99, 10⟩,
        ⟨180, 99, 101, 97, 98, 10⟩]
    let s : Stop Float := .trailing 5
    let position := Position.new (100 : Float) 1 false [101, 102, 102] [99, 100, 98]
    (Ordered fun x : Float => Binary64.place x.toModel.unpack) ∧ Incomparable Float ∧
    (∀ bar ∈ bars, bar.Priced) ∧
    firstTrigger bars (s.compute bars position).uncached position = some 3 ∧
    position.favorableExtreme 3 = none ∧ position.long = false ∧
    3 = position.entryBar + position.extremes.length ∧
    ∀ i, position.entryBar ≤ i → i < 3 →
      ¬ Reached position.long bars (s.compute bars position).uncached i := by
  intro bars s position
  have priced : ∀ bar ∈ bars, bar.Priced := by
    intro bar member
    simp only [bars, List.mem_cons, List.not_mem_nil, or_false] at member
    rcases member with rfl | rfl | rfl | rfl <;> constructor <;> decide +kernel
  have trigger : firstTrigger bars (s.compute bars position).uncached position = some 3 := by
    rw [uncached_compute]
    decide +kernel
  have unknown : position.favorableExtreme 3 = none := by decide +kernel
  obtain ⟨short, isFirst, -, before⟩ := (triggers_without_level_iff Binary64.ordered
    Binary64.incomparable s position priced 3).mp ⟨trigger, unknown⟩
  exact ⟨Binary64.ordered, Binary64.incomparable, priced, trigger, unknown, short, isFirst, before⟩

/-- A stop takes the zero of a bar without a level for a level: a short position that is known for
one of two bars is stopped on the other one. -/
theorem short_stopped_without_level :
    ∃ (bars : Bars Float) (s : Stop Float) (highs lows : List Float),
      let position := Position.new (100 : Float) 0 false highs lows
      (∀ bar ∈ bars, bar.Priced) ∧ s.validate = .ok () ∧
      (s.compute bars position).uncached = [148.5, 0] ∧
      firstTrigger bars (s.compute bars position).uncached position = some 1 ∧
      position.favorableExtreme 1 = none := by
  let bar (time : Int) : Bar Float := ⟨time, 100, 101, 99, 100, 10⟩
  refine ⟨[bar 0, bar 60], .trailing 50, [101], [99], ?_, rfl, ?_, ?_, ?_⟩
  · intro bar member
    simp only [List.mem_cons, List.not_mem_nil, or_false] at member
    rcases member with rfl | rfl <;> constructor <;> decide +kernel
  · rw [uncached_compute]
    decide +kernel
  · rw [uncached_compute]
    decide +kernel
  · decide +kernel

end Stop

end Chartist
