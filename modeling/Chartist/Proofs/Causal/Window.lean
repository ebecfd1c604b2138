import Chartist.Adaptive.Fractal
import Chartist.Adaptive.Rule
import Chartist.Indicator.OnSeries
import Chartist.Proofs.Causal.Basic

/-!
# Windows look back only

The window that ends at an index holds values up to that index (`trailing_take`), so every
statistic of windows is causal, and so are the smoothing factors made of them. The running
extremes step through their input with a deque instead.
-/

namespace Chartist

open Window Scalar

variable {α τ : Type}

/-! ## Windows -/

theorem Window.trailing_take (data : List α) {n i : Nat} (inside : i < n) (length : Nat) :
    trailing (data.take n) i length = trailing data i length := by
  have ends : start i length + span i length ≤ n := by
    unfold start span
    omega
  unfold trailing
  rw [List.drop_take, List.take_take, Nat.min_eq_left (by omega)]

theorem Causal.rolling (f : List α → τ) (length : Nat) :
    Causal fun data => rolling f data length :=
  .of_index (fun data i => f (trailing data i length)) (fun _ => rfl) fun data _ _ inside => by
    rw [trailing_take data inside]

theorem Causal.extremesFrom (keep : α → α → Bool) (length : Nat) (q : Deque α) (i : Nat) :
    Causal (extremesFrom keep length q i) :=
  of_step (g := fun (q, i) => Window.extremesFrom keep length q i)
    (fun (q, i) value => (((q.push keep i value).expire length i).front?.map (·.2)).getD value)
    (fun (q, i) value => ((q.push keep i value).expire length i, i + 1))
    (fun _ => rfl) (fun _ _ _ => rfl) (q, i)

variable [Scalar α]

theorem Causal.ranks (window : Window) (percent : Bool) :
    Causal (SeriesIndicator.ranks (α := α) window percent) := by
  refine .of_index _ (fun _ => rfl) fun data n i inside => ?_
  simp only [guarded, trailing_take data inside, List.getElem?_take_of_lt inside]

/-! ## Smoothing factors -/

namespace Adaptive

theorem changes_take (data : List α) (n : Nat) :
    changes (data.take n) = (changes data).take (n - 1) := by
  refine List.ext_getElem? fun i => ?_
  simp only [changes, List.getElem?_zipWith, List.getElem?_take, List.getElem?_drop]
  by_cases inside : i < n - 1
  · rw [if_pos inside, if_pos (by omega), if_pos (by omega)]
  · rw [if_neg inside, if_neg (by omega : ¬ 1 + i < n)]
    cases if i < n then data[i]? else none <;> rfl

omit [Scalar α] in
/-- The changes up to an index are known once the value at the index is. -/
theorem changesUpTo_take (all : List α) {n i : Nat} (inside : i < n) (length : Nat) :
    changesUpTo (all.take (n - 1)) i length = changesUpTo all i length := by
  unfold changesUpTo
  rw [List.drop_take, List.take_take, Nat.min_eq_left (by omega)]

theorem causal_efficiencyRatio (period : Nat) :
    Causal fun data : List α => efficiencyRatio data period := by
  refine .of_index _ (fun _ => rfl) fun data n i inside => ?_
  have before : i - period < n := by omega
  simp only [changes_take, List.map_take, changesUpTo_take _ inside,
    List.getElem?_take_of_lt inside, List.getElem?_take_of_lt before]

theorem causal_momentum (length : Nat) :
    Causal fun data : List α => momentum data length := by
  refine .of_index _ (fun _ => rfl) fun data n i inside => ?_
  simp only [changes_take, List.map_take, changesUpTo_take _ inside]

theorem causal_afterLookback (lookback : Nat) (f : α → α) : Causal (afterLookback lookback f) :=
  .mapIdx _

theorem causal_ratioAlphas (period lookback : Nat) :
    Causal fun ratios : List α => ratioAlphas ratios period lookback :=
  causal_afterLookback lookback _

theorem Rule.causal_alphas (rule : Rule) : Causal (rule.alphas : List α → List α) := by
  cases rule with
  | efficiency period fast slow =>
      exact (causal_afterLookback period _).comp (causal_efficiencyRatio period)
  | momentum period length =>
      exact (causal_ratioAlphas period length).comp
        ((Causal.map Scalar.abs).comp (causal_momentum length))
  | volatility period short long =>
      exact (causal_ratioAlphas period long).comp
        ((Causal.rolling deviation short).zipWith (.rolling deviation long) _)

/-- The dimension after the window that ends at an index. -/
def dimensionAt (highs lows : List α) (period : Nat) (dimension : α) (i : Nat) : α :=
  if i + 1 < period then dimension
  else (fractalDimension (channelSlopes (trailing highs i period) (trailing lows i period)
    (period / 2) period)).getD dimension

/-- At fixed prices, the fractal factors step through the indices with the dimension. -/
theorem causal_fractalAlphasFrom (highs lows : List α) (period : Nat) (dimension : α) :
    Causal (fractalAlphasFrom highs lows period dimension) := by
  refine .of_step
    (fun d i => if i + 1 < period then 1 else dimensionAlpha (dimensionAt highs lows period d i))
    (dimensionAt highs lows period) (fun _ => rfl) (fun d i rest => ?_) dimension
  rw [fractalAlphasFrom, dimensionAt]
  split <;> rfl

/-- The fractal factors at indices look at the values up to these only. -/
theorem fractalAlphasFrom_take (highs lows : List α) (period : Nat) {n : Nat} (dimension : α)
    {indices : List Nat} (inside : ∀ i ∈ indices, i < n) :
    fractalAlphasFrom (highs.take n) (lows.take n) period dimension indices =
      fractalAlphasFrom highs lows period dimension indices := by
  induction indices generalizing dimension with
  | nil => rfl
  | cons i rest ih =>
      have here : i < n := inside i List.mem_cons_self
      have later : ∀ j ∈ rest, j < n := fun j member => inside j (List.mem_cons_of_mem _ member)
      simp only [fractalAlphasFrom, trailing_take _ here, ih _ later]

theorem causal_fractalAlphas {σ : Type} {highs lows : List σ → List α} (upper : Causal highs)
    (lower : Causal lows) (period : Nat) :
    Causal fun xs => fractalAlphas (highs xs) (lows xs) period := by
  have indices (xs : List σ) : fractalAlphas (highs xs) (lows xs) period =
      fractalAlphasFrom (highs xs) (lows xs) period 1 (List.range xs.length) := by
    rw [fractalAlphas, upper.length, lower.length, Nat.min_self]
  constructor
  · intro xs
    rw [indices, (causal_fractalAlphasFrom _ _ _ _).length, List.length_range]
  · intro xs n
    have inside : ∀ i ∈ List.range (min n xs.length), i < n := fun i member =>
      Nat.lt_of_lt_of_le (List.mem_range.mp member) (Nat.min_le_left _ _)
    rw [indices, indices, upper.take, lower.take, List.length_take,
      fractalAlphasFrom_take _ _ _ _ inside, ← List.take_range,
      (causal_fractalAlphasFrom _ _ _ _).take]

end Adaptive

end Chartist
