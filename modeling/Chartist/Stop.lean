import Chartist.Indicator.OnBars
import Chartist.Position

/-!
# Stops

A stop names a candidate level for each bar from entry on, as long as the favourable extreme
is known, and moves from one to the next only in favour of the position: up for a long one,
down for a short one. Bars outside have level zero. `firstTrigger` finds the first bar that
reaches its level.
-/

namespace Chartist

/-- How the candidate levels of a stop are found. -/
inductive Stop (α : Type) where
  /-- A percentage behind the favourable extreme. -/
  | trailing (percent : α)
  /-- A multiple of the average true range behind the favourable extreme. -/
  | chandelier (period : Nat) (multiplier : α)
  /-- A fixed distance from entry, and the entry price itself once the position has gained
  `trigger`. -/
  | breakeven (risk trigger : α)

namespace Stop

variable {α : Type} [Scalar α]

open Scalar

/-- The parameters are acceptable. -/
def validate : Stop α → Except (StudyError α) Unit
  | .trailing percent =>
    if lt 0 percent && lt percent 100 then .ok ()
    else .error (.outOfRange "percent" percent 0 100)
  | .chandelier period multiplier => do
    require (isPositive multiplier) (.notPositive "ATR multiplier" multiplier)
    let _ ← checkPeriod "period" period
  | .breakeven risk trigger => do
    require (isPositive risk) (.notPositive "risk" risk)
    require (isPositive trigger) (.notPositive "trigger" trigger)

/-- The stop, if its parameters are acceptable. -/
def checked (s : Stop α) : Except (StudyError α) (Stop α) := do
  s.validate
  return s

def name : Stop α → String
  | .trailing _ => "TRAILING_PERCENT"
  | .chandelier .. => "ATR_TRAILING"
  | .breakeven .. => "BREAKEVEN"

/-- The level a distance behind a price. -/
def behind (long : Bool) (price distance : α) : α :=
  if long then price - distance else price + distance

/-- The level of a trailing stop. -/
def trailingLevel (percent : α) (long : Bool) (extreme : α) : α :=
  let offset := percent / 100
  if long then extreme * (1 - offset) else extreme * (1 + offset)

/-- The level of a stop that moves to the entry price. -/
def breakevenLevel (risk trigger entry : α) (long : Bool) (extreme : α) : α :=
  let excursion := if long then extreme - entry else entry - extreme
  if le trigger excursion then entry else behind long entry risk

/-- The candidate levels from entry on, given the average true range of each bar. -/
def candidates (s : Stop α) (position : Position α) (ranges : Series α) : List α :=
  match s with
  | .trailing percent => position.extremes.map (trailingLevel percent position.long)
  | .chandelier _ multiplier =>
    List.zipWith (fun extreme range => behind position.long extreme (multiplier * range))
      position.extremes (ranges.drop position.entryBar)
  | .breakeven risk trigger =>
    position.extremes.map (breakevenLevel risk trigger position.entryPrice position.long)

/-- The levels, each the better of a candidate and the level before it. -/
def ratchet (long : Bool) : List α → List α
  | [] => []
  | first :: rest => first :: Position.bestFrom long first rest

/-- The level on each of `length` bars: zero before entry and after the last one known. -/
def levels (s : Stop α) (position : Position α) (ranges : Series α) (length : Nat) : Series α :=
  let known := ratchet position.long
    ((s.candidates position ranges).take (length - position.entryBar))
  let lead := List.replicate (min position.entryBar length) 0
  let levels := lead ++ known
  levels ++ List.replicate (length - levels.length) 0

/-- The average true ranges a stop reads. -/
def ranges (s : Stop α) (bars : Bars α) : Series α :=
  match s with
  | .chandelier period _ => (BarIndicator.averageTrueRange period).values bars
  | _ => []

/-- The level on each bar. -/
def values (s : Stop α) (bars : Bars α) (position : Position α) : Series α :=
  s.levels position (s.ranges bars) bars.length

/-- The level on each bar, the average true range from the cache where it is kept. -/
def compute [Fingerprint α] (s : Stop α) (bars : Bars α) (position : Position α) :
    Cached α (Series α) := do
  let ranges ← match s with
    | .chandelier period _ => (BarIndicator.averageTrueRange period).cached bars
    | _ => pure []
  return s.levels position ranges bars.length

/-- A bar reaches a level. -/
def reaches (long : Bool) (bar : Bar α) (level : α) : Bool :=
  if long then le bar.low level else le level bar.high

/-- The first bar from entry on that reaches its level. -/
def firstTrigger (bars : Bars α) (levels : Series α) (position : Position α) : Option Nat :=
  (((bars.zip levels).drop position.entryBar).findIdx? fun (bar, level) =>
    reaches position.long bar level).map (· + position.entryBar)

end Stop

end Chartist
