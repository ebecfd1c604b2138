import Chartist.Scalar

/-!
# The Laguerre filter

Four coupled stages, each following the one before it with damping `gamma`, all of them
starting at the first input.
-/

namespace Chartist.Filter

/-- The state of the four stages. -/
structure Laguerre (α : Type) where
  l0 : α
  l1 : α
  l2 : α
  l3 : α
  deriving Repr

namespace Laguerre

variable {α : Type} [Scalar α]

open Scalar

/-- All four stages at one value. -/
def level (x : α) : Laguerre α := ⟨x, x, x, x⟩

/-- The stages after one more input. -/
def next (gamma : α) (s : Laguerre α) (price : α) : Laguerre α :=
  let l0 := (1 - gamma) * price + gamma * s.l0
  let l1 := -gamma * l0 + s.l0 + gamma * s.l1
  let l2 := -gamma * l1 + s.l1 + gamma * s.l2
  let l3 := -gamma * l2 + s.l2 + gamma * s.l3
  ⟨l0, l1, l2, l3⟩

/-- The smoothed value: the middle stages count twice. -/
def filter (s : Laguerre α) : α := (s.l0 + 2 * s.l1 + 2 * s.l2 + s.l3) / 6

/-- The sums of the downward and of the upward steps from each stage to the next one. -/
def upDown (s : Laguerre α) : α × α :=
  [(s.l0, s.l1), (s.l1, s.l2), (s.l2, s.l3)].foldl
    (fun (up, down) (a, b) => if le b a then (up + (a - b), down) else (up, down + (b - a)))
    (0, 0)

/-- The states that follow a state. -/
def passFrom (gamma : α) : Laguerre α → List α → List (Laguerre α)
  | _, [] => []
  | s, price :: rest =>
    let s := next gamma s price
    s :: passFrom gamma s rest

/-- The state after each input. -/
def pass (gamma : α) : List α → List (Laguerre α)
  | [] => []
  | first :: rest => passFrom gamma (level first) (first :: rest)

/-- The share of the upward steps in all steps between the stages; zero without steps. -/
def strength (s : Laguerre α) : α :=
  let (up, down) := s.upDown
  if lt 0 (up + down) then up / (up + down) else 0

end Laguerre

end Chartist.Filter
