import Chartist.Proofs.Indexed.Adaptive
import Chartist.Proofs.Word.Window

/-!
# Changes and fractal factors on words

The windows of changes run from the index after their start to the index after their end, the
fractal halves meet half a window after the start. The start of a window is found by a subtraction
that stops at zero, or on a full window only, so a long window adds nothing to it.
-/

namespace Chartist.Window.Overflow

open Indexed (minus slice collect scan)
open Adaptive Scalar

variable {α : Type} [Scalar α] (o : Overflow)

/-! ## Efficiency and momentum -/

/-- What a list has at the changes of a window. -/
def atChanges (xs : List α) (i length : Nat) : Option (List α) := do
  slice xs (← o.add (i - length) 1) (← o.add i 1)

def efficiencyRatio (data : List α) (period : Nat) : Option (List α) := do
  let sizes ← Indexed.sizes data
  collect data.length fun i => do
    let path ← o.sum (← o.atChanges sizes i period)
    let distance := Scalar.abs ((← data[i]?) - (← data[i - period]?))
    return clamp (distance / maxNum path epsilon) 0 1

def momentum (data : List α) (length : Nat) : Option (List α) := do
  let (gains, losses) ← Indexed.gainsAndLosses data
  collect data.length fun i => do
    let up ← o.sum (← o.atChanges gains i length)
    let down ← o.sum (← o.atChanges losses i length)
    let total := up + down
    return if lt epsilon total then clamp ((up - down) / total) (-1) 1 else 0

section Changes

variable {data : List α} (held : data.length < wordCount)
include held

/-- A window of changes is no longer than the data. -/
theorem length_changesUpTo_lt (f : α → α) (i length : Nat) :
    (changesUpTo ((changes data).map f) i length).length < wordCount := by
  unfold changesUpTo
  rw [List.length_take, List.length_drop, List.length_map, Indexed.length_changes]
  omega

theorem atChanges_eq {i : Nat} (inside : i < data.length) (length : Nat) (zero : α) (f : α → α) :
    o.atChanges (zero :: (changes data).map f) i length =
      some (changesUpTo ((changes data).map f) i length) := by
  have start : o.add (i - length) 1 = some (i - length + 1) := o.add_eq (by omega)
  have stop : o.add i 1 = some (i + 1) := o.add_eq (by omega)
  rw [atChanges, start, stop]
  exact Indexed.slice_changes inside length zero f

theorem efficiencyRatio_eq (period : Nat) :
    o.efficiencyRatio data period = some (Adaptive.efficiencyRatio data period) := by
  cases data with
  | nil => rfl
  | cons first rest =>
      rw [efficiencyRatio, Indexed.sizes_eq (List.cons_ne_nil _ _), Option.bind_eq_bind,
        Option.bind_some]
      refine Indexed.collect_eq fun i inside => ?_
      have here := List.getElem?_eq_getElem inside
      have start := List.getElem?_eq_getElem (Nat.lt_of_le_of_lt (Nat.sub_le i period) inside)
      simp only [o.atChanges_eq held inside, o.sum_eq (length_changesUpTo_lt held _ i period),
        Option.bind_eq_bind, Option.bind_some, here, start, Option.getD_some]
      rfl

theorem momentum_eq (length : Nat) :
    o.momentum data length = some (Adaptive.momentum data length) := by
  cases data with
  | nil => rfl
  | cons first rest =>
      rw [momentum, Indexed.gainsAndLosses_eq (List.cons_ne_nil _ _), Option.bind_eq_bind,
        Option.bind_some]
      refine Indexed.collect_eq fun i inside => ?_
      simp only [o.atChanges_eq held inside, o.sum_eq (length_changesUpTo_lt held _ i length),
        Option.bind_eq_bind, Option.bind_some]
      rfl

end Changes

/-! ## Fractal factors -/

def fractalAlphas (highs lows : List α) (period : Nat) : Option (List α) :=
  let half := period / 2
  scan (fun i (dimension : α) => do
    if (← o.add i 1) < period then return (dimension, 1)
    let start ← minus (← o.add i 1) period
    let mid ← o.add start half
    let n1 := channelRange (← slice highs start mid) (← slice lows start mid) / ofCount half
    let n2 := channelRange (← slice highs mid (← o.add i 1)) (← slice lows mid (← o.add i 1))
      / ofCount half
    let n3 := channelRange (← slice highs start (← o.add i 1)) (← slice lows start (← o.add i 1))
      / ofCount period
    let dimension := (fractalDimension (n1, n2, n3)).getD dimension
    return (dimension, dimensionAlpha dimension)) 0 (min highs.length lows.length) 1

/-- Half a window after its start is at most the index after its end. -/
theorem fractalAlphas_eq {highs lows : List α} (held : highs.length < wordCount) (period : Nat) :
    o.fractalAlphas highs lows period = some (Adaptive.fractalAlphas highs lows period) := by
  rw [← Indexed.fractalAlphas_eq]
  refine Indexed.scan_congr 1 fun i _ before dimension => ?_
  have ends : o.add i 1 = some (i + 1) := o.add_eq (by omega)
  by_cases warm : i + 1 < period
  · simp only [ends, warm, if_true, Option.bind_eq_bind, Option.bind_some]
  · have mid : o.add (i + 1 - period) (period / 2) = some (i + 1 - period + period / 2) :=
      o.add_eq (by omega)
    simp only [ends, warm, if_false, Indexed.minus_eq (Nat.not_lt.mp warm), mid,
      Option.bind_eq_bind, Option.bind_some]

end Chartist.Window.Overflow
