import Chartist.Window.Basic

/-!
# Statistics at every index

Sums, means and deviations are computed window by window, so that a value affects only the
windows that hold it. The running extremes are kept in a deque instead: the values that may
still become the extreme of a later window, with their indices. A new value drops those at
the back that it beats, and the front leaves when the window has moved past it.
-/

namespace Chartist.Window

variable {α : Type} [Scalar α]

open Scalar

/-- The sum of the window at every index. -/
def rollingSum (data : List α) (length : Nat) : List α := rolling sum data length

/-- The mean of the window at every index. -/
def rollingMean (data : List α) (length : Nat) : List α := rolling mean data length

/-- The deviation of the window at every index. -/
def rollingDeviation (data : List α) (length : Nat) : List α := rolling deviation data length

/-- The candidates for the extreme of a window with their indices, newest first. -/
abbrev Deque (α : Type) := List (Nat × α)

/-- The extreme of the current window is the oldest candidate. -/
def Deque.front? (q : Deque α) : Option (Nat × α) := q.getLast?

/-- Adds the value at an index; `keep old new` says that the new value leaves the old one a
candidate. -/
def Deque.push (keep : α → α → Bool) (q : Deque α) (index : Nat) (value : α) : Deque α :=
  (index, value) :: q.dropWhile fun (_, old) => !keep old value

/-- A candidate has left the window of `length` that ends at `stop`. -/
def expired (length stop : Nat) (candidate : Nat × α) : Bool :=
  candidate.1 + length ≤ stop

/-- Drops the front if it has left the window. -/
def Deque.expire (length stop : Nat) (q : Deque α) : Deque α :=
  if (q.front?.map (expired length stop)).getD false then q.dropLast else q

/-- The extremes of the windows from an index on, given the candidates before it. -/
def extremesFrom (keep : α → α → Bool) (length : Nat) : Deque α → Nat → List α → List α
  | _, _, [] => []
  | q, i, value :: rest =>
    let q := (q.push keep i value).expire length i
    (q.front?.map (·.2)).getD value :: extremesFrom keep length q (i + 1) rest

/-- The greatest value of the window at every index. -/
def rollingHighest (data : List α) (length : Nat) : List α :=
  extremesFrom (fun old new => lt new old) length [] 0 data

/-- The least value of the window at every index. -/
def rollingLowest (data : List α) (length : Nat) : List α :=
  extremesFrom (fun old new => lt old new) length [] 0 data

end Chartist.Window
