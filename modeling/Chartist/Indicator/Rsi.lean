import Chartist.Scalar

/-!
# The relative strength index

Average gains and losses are seeded with a plain mean over the first `period` changes and
smoothed from there on. The index is 50 before the seed, and where nothing moved.
-/

namespace Chartist.Rsi

variable {α : Type} [Scalar α]

open Scalar

/-- The average gain and loss so far. -/
structure Averages (α : Type) where
  gain : α
  loss : α
  deriving Repr

/-- The index for an average gain and loss. -/
def value (s : Averages α) : α :=
  if eq s.loss 0 then if eq s.gain 0 then 50 else 100
  else 100 - 100 / (1 + s.gain / s.loss)

/-- Adds a change to the totals of the seed. -/
def addChange (s : Averages α) (change : α) : Averages α :=
  if lt 0 change then { s with gain := s.gain + change }
  else { s with loss := s.loss - change }

/-- The averages over the changes of the seed. -/
def seed (period : Nat) (changes : List α) : Averages α :=
  let total := changes.foldl addChange ⟨0, 0⟩
  ⟨total.gain / ofCount period, total.loss / ofCount period⟩

/-- The averages after one more change. -/
def next (period : Nat) (s : Averages α) (change : α) : Averages α :=
  let p : α := ofCount period
  ⟨(s.gain * (p - 1) + maxNum change 0) / p, (s.loss * (p - 1) + maxNum (-change) 0) / p⟩

/-- The indices that follow a state. -/
def valuesFrom (period : Nat) : Averages α → List α → List α
  | _, [] => []
  | s, change :: rest =>
    let s := next period s change
    value s :: valuesFrom period s rest

/-- The index at every value of a series. -/
def values (period : Nat) (data : List α) : List α :=
  if data.length ≤ period then List.replicate data.length 50
  else
    let changes := List.zipWith (fun old new => new - old) data (data.drop 1)
    let start := seed period (changes.take period)
    List.replicate period 50 ++ value start :: valuesFrom period start (changes.drop period)

end Chartist.Rsi
