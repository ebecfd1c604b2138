import Chartist.Proofs.Causal.Indicator
import Chartist.Stop

/-!
# Stops do not repaint

A stop is evaluated together with a position whose extremes are read off the same bars
(`Position.onBars`). From the entry bar on, extremes, candidates and levels are causal; before it,
levels are zero. So the levels on more bars continue those on fewer (`Stop.causal_values`), and the
first bar that reaches its level is found as soon as it is there, and stays
(`Stop.never_repaints`).
-/

namespace Chartist

open Window

variable {α σ τ : Type}

/-- One value up to an index, and a causal function of the inputs from there on. -/
theorem Causal.after {f : List σ → List τ} (causal : Causal f) (lead : Nat) (x : τ) :
    Causal fun xs => List.replicate (min lead xs.length) x ++ f (xs.drop lead) where
  length xs := by
    rw [List.length_append, List.length_replicate, causal.length, List.length_drop]
    omega
  take xs n := by
    rw [List.drop_take, causal.take, List.take_append, List.take_replicate, List.length_replicate,
      List.length_take]
    by_cases inside : lead ≤ xs.length
    · rw [show min lead (min n xs.length) = min n (min lead xs.length) by omega,
        Nat.min_eq_left inside]
    · -- nothing stands behind the lead
      have nothing : f (xs.drop lead) = [] := by
        rw [← List.length_eq_zero_iff, causal.length, List.length_drop]
        omega
      rw [nothing, List.take_nil, List.take_nil,
        show min lead (min n xs.length) = min n (min lead xs.length) by omega]

variable [Scalar α]

/-! ## Positions -/

/-- The price that the extremes of a position follow. -/
def Position.side (long : Bool) : PriceSource := if long then .high else .low

/-- A position with its extremes on the bars that it is evaluated on. -/
def Position.onBars (entryPrice : α) (entryBar : Nat) (long : Bool) (bars : Bars α) :
    Position α :=
  .new entryPrice entryBar long (bars.price .high) (bars.price .low)

theorem Position.extremes_onBars (entryPrice : α) (entryBar : Nat) (long : Bool) (bars : Bars α) :
    (onBars entryPrice entryBar long bars).extremes =
      bestFrom long entryPrice (Bars.price (bars.drop entryBar) (side long)) := by
  have known : min (bars.price .high).length (bars.price .low).length = bars.length := by
    simp [Bars.price]
  have prices : (if long then bars.price .high else bars.price .low) =
      bars.price (side long) := by
    cases long <;> rfl
  rw [onBars, new, known, prices, List.take_of_length_le (Bars.causal_price _ |>.length _).le]
  simp [Bars.price]

theorem Position.causal_bestFrom (long : Bool) (best : α) :
    Causal (bestFrom long best) :=
  .of_step (better long) (better long) (fun _ => rfl) (fun _ _ _ => rfl) best

/-! ## Levels -/

namespace Stop

theorem causal_ratchet (long : Bool) : Causal (ratchet long : List α → List α) :=
  .of_first id rfl (fun _ _ => rfl) fun first => Position.causal_bestFrom long first

/-- Where each bar from entry on has a candidate, the levels are the ratcheted candidates behind
zeros. -/
theorem levels_of_candidates {s : Stop α} {position : Position α} {ranges : Series α} {length : Nat}
    (all : (s.candidates position ranges).length = length - position.entryBar) :
    s.levels position ranges length = List.replicate (min position.entryBar length) 0 ++
      ratchet position.long (s.candidates position ranges) := by
  have full : (List.replicate (min position.entryBar length) 0 ++
      ratchet position.long (s.candidates position ranges)).length = length := by
    rw [List.length_append, List.length_replicate, (causal_ratchet _).length, all]
    omega
  rw [levels, List.take_of_length_le all.le]
  simp only [full, Nat.sub_self, List.replicate_zero, List.append_nil]

/-- The candidates on the bars from entry on, given what is read off each of them. -/
theorem candidates_onBars (s : Stop α) (entryPrice : α) (entryBar : Nat) (long : Bool)
    (bars : Bars α) (ranges : Series α) :
    s.candidates (.onBars entryPrice entryBar long bars) ranges =
      let extremes := Position.bestFrom long entryPrice
        (Bars.price (bars.drop entryBar) (Position.side long))
      match s with
      | .trailing percent => extremes.map (trailingLevel percent long)
      | .chandelier _ multiplier =>
        List.zipWith (fun extreme range => behind long extreme (multiplier * range)) extremes
          (ranges.drop entryBar)
      | .breakeven risk trigger => extremes.map (breakevenLevel risk trigger entryPrice long) := by
  cases s <;> simp only [candidates, Position.extremes_onBars] <;> rfl

/-- Levels that are causal from entry on, in what is seen of the bars, are causal. -/
theorem causal_of_candidates {s : Stop α} {entryPrice : α} {entryBar : Nat} {long : Bool}
    {view : Bars α → List σ} {f : List σ → List α} (sees : Causal view) (causal : Causal f)
    (same : ∀ bars, s.candidates (.onBars entryPrice entryBar long bars) (s.ranges bars) =
      f ((view bars).drop entryBar)) :
    Causal fun bars => s.values bars (.onBars entryPrice entryBar long bars) := by
  have known (bars : Bars α) : s.values bars (.onBars entryPrice entryBar long bars) =
      List.replicate (min entryBar (view bars).length) 0 ++
        ratchet long (f ((view bars).drop entryBar)) := by
    rw [Stop.values, levels_of_candidates, same, sees.length]
    · rfl
    · rw [same, causal.length, List.length_drop, sees.length]
      rfl
  simp only [known]
  exact (((causal_ratchet long).comp causal).after entryBar 0).comp sees

/-- The levels of a stop for a position on the same bars are causal. -/
theorem causal_values (s : Stop α) (entryPrice : α) (entryBar : Nat) (long : Bool) :
    Causal fun bars => s.values bars (.onBars entryPrice entryBar long bars) := by
  have extremes : Causal fun bars : Bars α =>
      Position.bestFrom long entryPrice (bars.price (Position.side long)) :=
    (Position.causal_bestFrom long entryPrice).comp (Bars.causal_price _)
  cases s with
  | trailing percent =>
      have candidates := (Causal.map (trailingLevel percent long)).comp extremes
      exact causal_of_candidates .id candidates fun bars => candidates_onBars ..
  | chandelier period multiplier =>
      -- each bar is seen together with its average true range
      have ranges := (BarIndicator.averageTrueRange period).causal_values (α := α)
      have seen := (extremes.comp (.map Prod.fst)).zipWith (.map Prod.snd)
        fun extreme range => behind long extreme (multiplier * range)
      refine causal_of_candidates (Causal.id.zip ranges) seen fun bars => ?_
      rw [candidates_onBars, List.map_drop, List.map_drop, List.map_fst_zip (ranges.length bars).ge,
        List.map_snd_zip (ranges.length bars).le]
      rfl
  | breakeven risk trigger =>
      have candidates := (Causal.map (breakevenLevel risk trigger entryPrice long)).comp extremes
      exact causal_of_candidates .id candidates fun bars => candidates_onBars ..

/-- The first bar that reaches its level among the first bars is the one among all bars, if that one
is among the first. -/
theorem firstTrigger_take (bars : Bars α) (levels : Series α) (position : Position α) (n k : Nat) :
    firstTrigger (bars.take n) (levels.take n) position = some k ↔
      firstTrigger bars levels position = some k ∧ k < n := by
  have zipped : (bars.take n).zip (levels.take n) = (bars.zip levels).take n := by
    simp only [List.zip, List.take_zipWith]
  rw [firstTrigger, firstTrigger, zipped, List.drop_take, List.findIdx?_take]
  generalize List.findIdx? _ ((bars.zip levels).drop position.entryBar) = first
  cases first with
  | none => simp
  | some i => simp [Option.guard]; omega

variable [Fingerprint α]

/-- Stops and triggers do not repaint. For a position whose extremes are read off the bars it is
evaluated on, the levels on the first bars are the first levels on all of them, and the first bar
that reaches its level is found on the first bars exactly if it is one of these. Reaching a level
for the first time is therefore final: more bars neither move it nor bring up an earlier one. -/
theorem never_repaints (s : Stop α) (bars : Bars α) (entryPrice : α) (entryBar : Nat) (long : Bool)
    (n : Nat) :
    let position (bars : Bars α) := Position.onBars entryPrice entryBar long bars
    let levels (bars : Bars α) := (s.compute bars (position bars)).uncached
    levels (bars.take n) = (levels bars).take n ∧
      ∀ k, firstTrigger (bars.take n) (levels (bars.take n)) (position (bars.take n)) = some k ↔
        firstTrigger bars (levels bars) (position bars) = some k ∧ k < n := by
  have first := (s.causal_values entryPrice entryBar long).take bars n
  simp only [uncached_compute, first, true_and]
  exact firstTrigger_take bars _ (.onBars entryPrice entryBar long bars) n

end Stop

end Chartist
