import Chartist.Indicator.Bundle
import Chartist.Indicator.OnBars

/-!
# Handlers

A handler is an indicator bound to what it reads: a price of the bars, or the bars
themselves. `values` is what it answers, and `execute` answers it through a cache.
-/

namespace Chartist

/-- An indicator bound to its input. -/
inductive Handler (α : Type) where
  | onPrice (source : PriceSource) (indicator : SeriesIndicator α)
  | onBars (indicator : BarIndicator)
  | onOutput (source : PriceSource) (bundle : Bundle α) (output : String)

namespace Handler

variable {α : Type} [Scalar α]

/-- The output of that name of a bundle on a price. -/
def outputOf (source : PriceSource) (bundle : Bundle α) (output : String) :
    Except (StudyError α) (Handler α) := do
  require (bundle.names.contains output) (.unknownOutput bundle.name output bundle.names)
  return .onOutput source bundle output

def name : Handler α → String
  | .onPrice _ indicator => indicator.name
  | .onBars indicator => indicator.name
  | .onOutput _ bundle _ => bundle.name

/-- The answer to a question for an output that does not exist. -/
def missing (bars : Bars α) : Series α := List.replicate bars.length Scalar.nan

/-- One value for each bar. -/
def values (h : Handler α) (bars : Bars α) : Series α :=
  match h with
  | .onPrice source indicator => indicator.values (bars.price source)
  | .onBars indicator => indicator.values bars
  | .onOutput source bundle output =>
    ((bundle.outputs (bars.price source)).lookup output).getD (missing bars)

variable [Fingerprint α]

/-- One value for each bar, through a cache. -/
def execute (h : Handler α) (bars : Bars α) : Cached α (Series α) := do
  match h with
  | .onPrice source indicator => indicator.cached (← priceSeries bars source)
  | .onBars indicator => indicator.cached bars
  | .onOutput source bundle output =>
    let data ← priceSeries bars source
    return (← bundle.cachedOutput data output).getD (missing bars)

end Handler

end Chartist
