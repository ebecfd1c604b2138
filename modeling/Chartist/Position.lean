import Chartist.Bar

/-!
# Open positions

A position is entered at a price on a bar, long or short. Its favourable extreme on a bar is
the best price reached since entry: the highest high of a long position, the lowest low of a
short one, the entry price included.
-/

namespace Chartist

/-- An open position, with its favourable extreme on each bar from entry on as far as it is
known. -/
structure Position (α : Type) where
  entryPrice : α
  entryBar : Nat
  long : Bool
  extremes : List α
  deriving Repr, DecidableEq

namespace Position

variable {α : Type} [Scalar α]

open Scalar

/-- The better of two prices for a position. -/
def better (long : Bool) (a b : α) : α := if long then maxNum a b else minNum a b

/-- The best price so far, along a list of prices. -/
def bestFrom (long : Bool) : α → List α → List α
  | _, [] => []
  | best, x :: rest =>
    let best := better long best x
    best :: bestFrom long best rest

/-- A position with its extremes on bars whose highs and lows are known. -/
def new (entryPrice : α) (entryBar : Nat) (long : Bool) (highs lows : List α) : Position α :=
  let known := min highs.length lows.length
  let prices := (if long then highs else lows).take known
  ⟨entryPrice, entryBar, long, bestFrom long entryPrice (prices.drop entryBar)⟩

/-- The favourable extreme on a bar; unknown before entry. -/
def favorableExtreme (p : Position α) (bar : Nat) : Option α :=
  if bar < p.entryBar then none else p.extremes[bar - p.entryBar]?

end Position

end Chartist
