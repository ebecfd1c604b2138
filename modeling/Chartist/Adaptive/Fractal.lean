import Chartist.Adaptive.Basic

/-!
# Fractal smoothing factors

The range of a channel over two halves of a window, against its range over the whole one,
gives an estimate of the fractal dimension of the price path: 1 for a straight line, 2 for
a path that fills the plane. Straight paths are followed closely, rough ones slowly.
-/

namespace Chartist.Adaptive

variable {α : Type} [Scalar α]

open Scalar Window

/-- The least fractal factor. -/
def minFractalAlpha : α := 0.01

/-- A window that can be halved. -/
def checkFractalPeriod (period : Nat) : Except (StudyError α) Unit :=
  require (2 ≤ period && period % 2 == 0) (.oddFractalPeriod period)

/-- The greatest high less the least low. -/
def channelRange (highs lows : List α) : α :=
  highs.foldl maxNum (-infinity) - lows.foldl minNum infinity

/-- The ranges per bar over the older half of a window, its newer half and all of it. -/
def channelSlopes (highs lows : List α) (half period : Nat) : α × α × α :=
  (channelRange (highs.take half) (lows.take half) / ofCount half,
   channelRange (highs.drop half) (lows.drop half) / ofCount half,
   channelRange highs lows / ofCount period)

/-- The dimension that a window shows, if it has a range. -/
def fractalDimension (slopes : α × α × α) : Option α :=
  let (n1, n2, n3) := slopes
  if lt 0 (n1 + n2) && lt 0 n3 then some ((log (n1 + n2) - log n3) / logTwo) else none

/-- The factor for a dimension. -/
def dimensionAlpha (dimension : α) : α :=
  let alpha := exp (-4.6 * (dimension - 1))
  if isFinite alpha then clamp alpha minFractalAlpha 1 else minFractalAlpha

/-- The factors at the given indices, from the dimension before them. A window without a
range keeps that dimension. -/
def fractalAlphasFrom (highs lows : List α) (period : Nat) : α → List Nat → List α
  | _, [] => []
  | dimension, i :: rest =>
    if i + 1 < period then 1 :: fractalAlphasFrom highs lows period dimension rest
    else
      let slopes := channelSlopes (trailing highs i period) (trailing lows i period)
        (period / 2) period
      let dimension := (fractalDimension slopes).getD dimension
      dimensionAlpha dimension :: fractalAlphasFrom highs lows period dimension rest

/-- One factor for each bar; the first `period - 1` of them are 1. -/
def fractalAlphas (highs lows : List α) (period : Nat) : List α :=
  fractalAlphasFrom highs lows period 1 (List.range (min highs.length lows.length))

end Chartist.Adaptive
