import Chartist.Error
import Chartist.Filter.Exponential

/-!
# Cascades

A cascade smooths its own output again and again and combines the stages with alternating
binomial weights, which cancel the lag that the stages add up. The weights of every cascade
sum to one.
-/

namespace Chartist.Filter

/-- A cascade, told by its stages and weights. -/
inductive Cascade where
  /-- Two stages. -/
  | double
  /-- Three stages. -/
  | triple
  /-- Any number of stages. -/
  | deep (depth : Nat)
  deriving Repr, DecidableEq

namespace Cascade

/-- The greatest number of stages. -/
def maxDepth : Nat := 50

/-- The number of stages. -/
def depth : Cascade → Nat
  | .double => 2
  | .triple => 3
  | .deep depth => depth

variable {α : Type} [Scalar α]

open Scalar

/-- The number of stages is acceptable. -/
def validate : Cascade → Except (StudyError α) Unit
  | .deep depth => do
    let _ ← checkCount "depth" depth 1 maxDepth
  | _ => .ok ()

/-- The weights of the stages `k`, `k + 1`, … of a cascade with `left` stages to go, after
the binomial coefficient `binom`. -/
def weightsFrom (binom : α) (k : Nat) : Nat → List α
  | 0 => []
  | left + 1 =>
    let next := binom * ofCount (left + 1) / ofCount k
    (if k % 2 = 1 then next else -next) :: weightsFrom next (k + 1) left

/-- The weights of the stages, first stage first: stage `k` of `d` has the binomial
coefficient of `d` over `k`, with a minus sign for even `k`. -/
def weights (c : Cascade) : List α := weightsFrom 1 1 c.depth

end Cascade

variable {α : Type} [Scalar α]

/-- The stages of repeated smoothing: each smooths the one before it. -/
def stages (alpha : α) : Nat → List α → List (List α)
  | 0, _ => []
  | depth + 1, data =>
    let stage := smooth alpha data
    stage :: stages alpha depth stage

/-- The sum of a list, added up from the left. -/
def runningSum (xs : List α) : α := xs.foldl (· + ·) (-0)

/-- The weighted sum of stages of one length, value by value. -/
def combine (stages : List (List α)) (weights : List α) : List α :=
  let length := (stages.head?.map List.length).getD 0
  (List.range length).map fun i =>
    runningSum (List.zipWith (fun stage w => w * stage[i]?.getD Scalar.nan) stages weights)

end Chartist.Filter
