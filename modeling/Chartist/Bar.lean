import Chartist.Scalar

/-!
# Bars

A bar sums up the trading of one interval. Prices are read off bars through a
`PriceSource`, and the true range of a bar measures it against the close before it.
-/

namespace Chartist

/-- One value per bar, oldest first. -/
abbrev Series (α : Type) := List α

/-- The trading of one interval. -/
structure Bar (α : Type) where
  /-- Milliseconds since the start of 1970. -/
  timestamp : Int
  opening : α
  high : α
  low : α
  close : α
  volume : α
  deriving Repr, DecidableEq

/-- Bars in time order. -/
abbrev Bars (α : Type) := List (Bar α)

/-- A number read off a bar. -/
inductive PriceSource where
  | opening
  | high
  | low
  | close
  | volume
  /-- The mean of high and low. -/
  | median
  /-- The mean of high, low and close. -/
  | typical
  /-- The mean of high, low and twice the close. -/
  | weighted
  deriving Repr, DecidableEq

namespace PriceSource

def all : List PriceSource :=
  [.opening, .high, .low, .close, .volume, .median, .typical, .weighted]

def name : PriceSource → String
  | .opening => "open"
  | .high => "high"
  | .low => "low"
  | .close => "close"
  | .volume => "volume"
  | .median => "median"
  | .typical => "typical"
  | .weighted => "weighted"

/-- The source of a name in any case. -/
def ofText? (text : String) : Option PriceSource :=
  let lower := text.map Char.toLower
  all.find? (·.name == lower)

/-- What is said of a text that names no source. -/
def unknownMessage (text : String) : String := s!"Unknown price source: {text}"

end PriceSource

variable {α : Type} [Scalar α]

open Scalar

namespace Bar

/-- The price of a bar. -/
def price (b : Bar α) : PriceSource → α
  | .opening => b.opening
  | .high => b.high
  | .low => b.low
  | .close => b.close
  | .volume => b.volume
  | .median => (b.high + b.low) / 2
  | .typical => (b.high + b.low + b.close) / 3
  | .weighted => (b.high + b.low + 2 * b.close) / 4

/-- High less low. -/
def range (b : Bar α) : α := b.high - b.low

/-- The greatest distance between high, low and the close before; the range without one. -/
def trueRange (b : Bar α) : Option α → α
  | none => b.range
  | some before => maxNum (maxNum b.range (abs (b.high - before))) (abs (b.low - before))

end Bar

namespace Bars

/-- One price of each bar. -/
def price (bars : Bars α) (source : PriceSource) : Series α := bars.map (·.price source)

/-- The true ranges of bars that follow a close. -/
def trueRangesFrom : Option α → Bars α → Series α
  | _, [] => []
  | before, b :: rest => b.trueRange before :: trueRangesFrom (some b.close) rest

/-- The true range of each bar. -/
def trueRanges (bars : Bars α) : Series α := trueRangesFrom none bars

end Bars

end Chartist
