import Chartist.Filter.Cascade
import Chartist.Filter.Kalman
import Chartist.Filter.Laguerre
import Chartist.Filter.Linear
import Chartist.Indicator.Rsi
import Chartist.Proofs.Causal.Window

/-!
# Filters are causal

Every filter steps through its input with a state, most of them from a state that the first
value sets. The two that work otherwise have an argument of their own: a cascade combines
stages that are causal each (`Filter.stages_take`), and the relative strength index answers
50 to all of an input that is too short for its seed.
-/

namespace Chartist

open Chartist.Filter Scalar

variable {α σ : Type} [Scalar α]

/-! ## Smoothing -/

theorem Causal.smooth (alpha : α) : Causal (smooth alpha) :=
  of_first id rfl (fun _ _ => rfl) fun first =>
    of_step (approach alpha) (approach alpha) (fun _ => rfl) (fun _ _ _ => rfl) first

theorem Causal.smoothBy {values alphas : List σ → List α} (inputs : Causal values)
    (fractions : Causal alphas) : Causal fun xs => smoothBy (values xs) (alphas xs) := by
  -- on pairs of a value and its fraction
  have steps : Causal fun pairs : List (α × α) =>
      Filter.smoothBy (pairs.map Prod.fst) (pairs.map Prod.snd) :=
    of_first Prod.fst rfl (fun _ _ => rfl) fun first =>
      of_step (g := fun level pairs =>
          smoothByFrom level (pairs.map Prod.fst) (pairs.map Prod.snd))
        (fun level pair => approach pair.2 level pair.1)
        (fun level pair => approach pair.2 level pair.1) (fun _ => rfl) (fun _ _ _ => rfl) first.1
  have together := steps.comp (inputs.zip fractions)
  have lengths (xs : List σ) : (values xs).length = (alphas xs).length := by
    rw [inputs.length, fractions.length]
  simpa only [List.map_fst_zip (Nat.le_of_eq (lengths _)),
    List.map_snd_zip (Nat.le_of_eq (lengths _).symm)] using together

theorem Filter.length_smoothBy {data alphas : List α} (aligned : alphas.length = data.length) :
    (Filter.smoothBy data alphas).length = data.length := by
  have pairs := ((Causal.map Prod.fst).smoothBy (Causal.map Prod.snd)).length (data.zip alphas)
  rwa [List.map_fst_zip (Nat.le_of_eq aligned.symm), List.map_snd_zip (Nat.le_of_eq aligned),
    List.length_zip, aligned, Nat.min_self] at pairs

/-! ## Cascades -/

namespace Filter

theorem stages_take (alpha : α) (depth : Nat) (data : List α) (n : Nat) :
    stages alpha depth (data.take n) = (stages alpha depth data).map (·.take n) := by
  induction depth generalizing data with
  | zero => rfl
  | succ depth ih =>
      simp only [stages, List.map_cons, (Causal.smooth alpha).take, ih]

theorem causal_combine_stages (alpha : α) {depth : Nat} (deep : 0 < depth) (weights : List α) :
    Causal fun data => combine (stages alpha depth data) weights := by
  refine .of_index (fun data i => runningSum (List.zipWith
    (fun stage w => w * stage[i]?.getD nan) (stages alpha depth data) weights)) ?_ ?_
  · intro data
    obtain ⟨rest, rfl⟩ := Nat.exists_eq_succ_of_ne_zero (Nat.ne_of_gt deep)
    simp only [combine, stages, List.head?_cons, Option.map_some, Option.getD_some,
      (Causal.smooth alpha).length]
  · intro data n i inside
    rw [stages_take, List.zipWith_map_left]
    simp only [List.getElem?_take_of_lt inside]

end Filter

/-! ## Filters with a state -/

theorem Filter.Kalman.causal_levels (q r : α) : Causal (Kalman.levels q r) :=
  .of_first id rfl (fun _ _ => rfl) fun _ =>
    .of_step (fun s price => (next q r s price).level) (next q r) (fun _ => rfl)
      (fun _ _ _ => rfl) _

theorem Filter.Laguerre.causal_pass (gamma : α) : Causal (Laguerre.pass gamma) :=
  .of_first (fun first => next gamma (level first) first) rfl (fun _ _ => rfl) fun _ =>
    .of_step (next gamma) (next gamma) (fun _ => rfl) (fun _ _ _ => rfl) _

theorem Filter.LinearFilter.causal_apply (f : LinearFilter α) : Causal f.apply := by
  refine .of_step (g := fun (passing, inputs, outputs) => f.applyFrom passing inputs outputs)
    (fun (passing, inputs, outputs) x =>
      if passing = 0 then tap f.feedforward (x :: inputs) + tap f.feedback outputs else x)
    (fun (passing, inputs, outputs) x =>
      (passing - 1, x :: inputs,
        (if passing = 0 then tap f.feedforward (x :: inputs) + tap f.feedback outputs else x)
          :: outputs))
    (fun (passing, _, _) => by cases passing <;> rfl)
    (fun (passing, _, _) _ _ => by cases passing <;> rfl) (f.order, [], [])

/-! ## The relative strength index -/

namespace Rsi

theorem causal_valuesFrom (period : Nat) (s : Averages α) : Causal (valuesFrom period s) :=
  .of_step (fun s change => value (next period s change)) (next period) (fun _ => rfl)
    (fun _ _ _ => rfl) s

theorem values_short {period : Nat} {data : List α} (short : data.length ≤ period) :
    values period data = List.replicate data.length 50 :=
  if_pos short

/-- Once the seed is complete, the values step through the changes that follow. -/
theorem values_long {period : Nat} {data : List α} (long : period < data.length) :
    values period data = List.replicate period 50 ++
      value (seed period ((Adaptive.changes data).take period)) ::
        valuesFrom period (seed period ((Adaptive.changes data).take period))
          ((Adaptive.changes data).drop period) :=
  if_neg (Nat.not_le.mpr long)

theorem length_values (period : Nat) (data : List α) :
    (values period data).length = data.length := by
  by_cases short : data.length ≤ period
  · rw [values_short short, List.length_replicate]
  · rw [values_long (Nat.not_le.mp short)]
    simp only [List.length_append, List.length_replicate, List.length_cons,
      (causal_valuesFrom _ _).length, List.length_drop, Adaptive.changes, List.length_zipWith]
    omega

/-- Up to the seed every value is 50, however many values there are. -/
theorem values_take_of_le {period n : Nat} (early : n ≤ period) (data : List α) :
    values period (data.take n) = (values period data).take n := by
  have short : (data.take n).length ≤ period := by
    rw [List.length_take]
    omega
  rw [values_short short]
  by_cases whole : data.length ≤ period
  · rw [values_short whole, List.length_take, List.take_replicate]
  · rw [values_long (Nat.not_le.mp whole), List.take_append_of_le_length (by simpa using early),
      List.take_replicate, List.length_take, Nat.min_eq_left (by omega), Nat.min_eq_left early]

/-- From the seed on, the values step through the changes, which are those of all the data. -/
theorem values_take_of_lt {period n : Nat} {data : List α} (late : period < n)
    (long : period < data.length) :
    values period (data.take n) = (values period data).take n := by
  have longer : period < (data.take n).length := by
    rw [List.length_take]
    omega
  obtain ⟨rest, rfl⟩ : ∃ rest, n = period + (rest + 1) := ⟨n - period - 1, by omega⟩
  have seeds : ((Adaptive.changes data).take (period + rest)).take period =
      (Adaptive.changes data).take period := by
    rw [List.take_take, Nat.min_eq_left (Nat.le_add_right _ _)]
  have tails : ((Adaptive.changes data).take (period + rest)).drop period =
      ((Adaptive.changes data).drop period).take rest := by
    rw [List.drop_take, Nat.add_sub_cancel_left]
  have heads : (List.replicate period (50 : α)).length = period := List.length_replicate
  rw [values_long longer, values_long long, Adaptive.changes_take, Nat.add_succ_sub_one, seeds,
    tails, (causal_valuesFrom _ _).take, List.take_append, heads, Nat.add_sub_cancel_left,
    List.take_succ_cons, List.take_replicate, Nat.min_eq_right (Nat.le_add_right _ _)]

theorem causal_values (period : Nat) : Causal (values period : List α → List α) where
  length := length_values period
  take data n := by
    by_cases early : n ≤ period
    · exact values_take_of_le early data
    · by_cases short : data.length ≤ period
      · -- nothing is cut off
        have whole : data.length ≤ n := by omega
        rw [List.take_of_length_le whole,
          List.take_of_length_le (by rwa [length_values period data])]
      · exact values_take_of_lt (Nat.not_le.mp early) (Nat.not_le.mp short)

end Rsi

end Chartist
