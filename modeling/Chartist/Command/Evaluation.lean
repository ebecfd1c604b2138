import Chartist.Catalog.Entry

/-!
# Evaluations

An indicator of the catalog over bars. Parameters that leave out the price for an indicator
that reads one are completed by a given price first.
-/

namespace Chartist.Command

variable {α : Type}

/-- Parameters with a price filled in, if the indicator's own defaults have one and the
parameters are an object that leaves it out. -/
def withSource (source : PriceSource) (defaults : Json α) : Json α → Json α
  | .obj members =>
    if (defaults.get? "source").isSome && (members.lookup "source").isNone then
      .obj (Json.insert "source" (.str source.name) members)
    else .obj members
  | params => params

variable [Scalar α] [Fingerprint α]

/-- One value for each bar, through a fresh cache or none. -/
def evaluate (caching : Bool) (h : Handler α) (bars : Bars α) : Series α :=
  ((h.execute bars).run (if caching then .memo .empty else .off)).1

end Chartist.Command
