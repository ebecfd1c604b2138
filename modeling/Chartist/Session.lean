import Chartist.Indicator.Handler
import Chartist.Stop

/-!
# Sessions

Evaluations that share one cache, one after the other, with the cache cleared now and then.
-/

namespace Chartist

/-- A question answered by one series: an indicator over bars, or a stop for a position. -/
inductive Evaluation (α : Type) where
  | execute (handler : Handler α) (bars : Bars α)
  | stop (s : Stop α) (bars : Bars α) (position : Position α)

variable {α : Type} [Scalar α] [Fingerprint α]

/-- The answer, through a cache. -/
def Evaluation.answer : Evaluation α → Cached α (Series α)
  | .execute handler bars => handler.execute bars
  | .stop s bars position => s.compute bars position

/-- A step of a session. -/
inductive Step (α : Type) where
  | evaluate (evaluation : Evaluation α)
  | clear

/-- What a step answers on a cache, if it asks anything, and the cache afterwards. -/
def Step.run : Step α → Cache α → Option (Series α) × Cache α
  | .evaluate evaluation, c =>
    let (series, c) := evaluation.answer.run c
    (some series, c)
  | .clear, c => (none, c.clear)

/-- The answers of the steps of a session in turn, and the cache after the last one. -/
def Session.run : List (Step α) → Cache α → List (Option (Series α)) × Cache α
  | [], c => ([], c)
  | step :: rest, c =>
    let (answer, c) := step.run c
    let (answers, c) := Session.run rest c
    (answer :: answers, c)

end Chartist
