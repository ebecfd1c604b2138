import Chartist.Adaptive.Basic

/-!
# Adaptive rules

The three rules that map one series to smoothing factors. The first `lookback` factors of a
rule are 1, so an average smoothed with them starts by following its input.
-/

namespace Chartist.Adaptive

/-- A rule for smoothing factors. -/
inductive Rule where
  /-- The efficiency ratio, between the constants of a slow and a fast average. -/
  | efficiency (period fast slow : Nat)
  /-- The size of the momentum, scaling an exponential average. -/
  | momentum (period length : Nat)
  /-- Short over long deviation, scaling an exponential average. -/
  | volatility (period short long : Nat)
  deriving Repr, DecidableEq

namespace Rule

variable {α : Type} [Scalar α]

open Chartist.Filter

/-- All windows are at least one long, and the short one of a pair is shorter. -/
def validate : Rule → Except (StudyError α) Unit
  | .efficiency period fast slow => do
    let _ ← checkPeriod "period" period
    let _ ← checkPeriod "fast" fast
    let _ ← checkPeriod "slow" slow
    require (fast < slow) (.notShorter "fast" fast "slow" slow)
  | .momentum period length => do
    let _ ← checkPeriod "period" period
    let _ ← checkPeriod "cmo_length" length
  | .volatility period short long => do
    let _ ← checkPeriod "period" period
    let _ ← checkPeriod "short" short
    let _ ← checkPeriod "long" long
    require (short < long) (.notShorter "short" short "long" long)

/-- The number of factors that are fixed at 1. -/
def lookback : Rule → Nat
  | .efficiency period _ _ => period
  | .momentum _ length => length
  | .volatility _ _ long => long

/-- One smoothing factor for each value. -/
def alphas (rule : Rule) (data : List α) : List α :=
  match rule with
  | .efficiency period fast slow =>
    afterLookback rule.lookback (kamaAlpha · fast slow) (efficiencyRatio data period)
  | .momentum period length =>
    ratioAlphas ((Adaptive.momentum data length).map Scalar.abs) period rule.lookback
  | .volatility period short long =>
    ratioAlphas (deviationRatio data short long) period rule.lookback

end Rule

end Chartist.Adaptive
