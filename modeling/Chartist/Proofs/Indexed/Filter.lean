import Chartist.Proofs.Indexed.Adaptive

/-!
# Filters by index

Filters that go through their input with indices: those that start at the first value slice it
off, a cascade and a linear filter reach back by a distance that is subtracted, and the
relative strength index puts its values into a list. A factor for each value is asserted before
the smoothing with one (`smoothBy`).
-/

namespace Chartist.Indexed

open Chartist.Filter Scalar

variable {α : Type} [Scalar α]

/-! ## Smoothing -/

/-- A filter that starts at the first value and goes on over the slice after it. -/
def afterFirst (data : List α) (rest : α → List α → List α) : Option (List α) :=
  match data.head? with
  | none => some []
  | some first => do return first :: rest first (← slice data 1 data.length)

def smooth (alpha : α) (data : List α) : Option (List α) := afterFirst data (smoothFrom alpha)

def smoothBy (data alphas : List α) : Option (List α) := do
  guard (alphas.length = data.length)
  return Filter.smoothBy data alphas

def kalman (q r : α) (data : List α) : Option (List α) :=
  afterFirst data fun first => Kalman.levelsFrom q r ⟨first, 1⟩

omit [Scalar α] in
theorem afterFirst_cons (first : α) (later : List α) (rest : α → List α → List α) :
    afterFirst (first :: later) rest = some (first :: rest first later) := by
  rw [afterFirst, List.head?_cons, slice_length (Nat.le_add_left 1 _)]
  rfl

theorem smooth_eq (alpha : α) (data : List α) : smooth alpha data = some (Filter.smooth alpha data) := by
  cases data with
  | nil => rfl
  | cons first later => exact afterFirst_cons first later _

theorem kalman_eq (q r : α) (data : List α) : kalman q r data = some (Kalman.levels q r data) := by
  cases data with
  | nil => rfl
  | cons first later => exact afterFirst_cons first later _

theorem smoothBy_eq {data alphas : List α} (aligned : alphas.length = data.length) :
    smoothBy data alphas = some (Filter.smoothBy data alphas) := by
  rw [smoothBy]
  simp [guard, aligned]

/-! ## Cascades -/

def cascadeWeights (depth : Nat) : Option (List α) :=
  scan (fun k (binom : α) => do
    let next := binom * ofCount (← minus (depth + 1) k) / ofCount k
    return (next, if k % 2 = 1 then next else -next)) 1 depth 1

def stages (alpha : α) : Nat → List α → Option (List (List α))
  | 0, _ => some []
  | depth + 1, data => do
    let stage ← smooth alpha data
    return stage :: (← stages alpha depth stage)

/-- The weighted sum of stages, each of them read at every index of the first. -/
def combine (stages : List (List α)) (weights : List α) : Option (List α) :=
  collect ((stages.head?.map List.length).getD 0) fun i => do
    return runningSum (← (stages.zip weights).mapM fun (stage, w) => do return w * (← stage[i]?))

theorem scan_weights {depth k left : Nat} (places : k + left = depth + 1) (binom : α) :
    scan (fun k (binom : α) => do
      let next := binom * ofCount (← minus (depth + 1) k) / ofCount k
      return (next, if k % 2 = 1 then next else -next)) k left binom =
      some (Cascade.weightsFrom binom k left) := by
  induction left generalizing k binom with
  | zero => rfl
  | succ left ih =>
      have later := ih (k := k + 1) (by omega)
      have here : minus (depth + 1) k = some (left + 1) := by
        rw [minus_eq (by omega)]
        congr 1
        omega
      simp only [scan, here, Option.bind_eq_bind, Option.bind_some, Option.pure_def] at later ⊢
      rw [later]
      rfl

theorem cascadeWeights_eq (c : Cascade) : cascadeWeights c.depth = some (c.weights : List α) :=
  scan_weights (Nat.add_comm _ _) 1

theorem stages_eq (alpha : α) (depth : Nat) (data : List α) :
    stages alpha depth data = some (Filter.stages alpha depth data) := by
  induction depth generalizing data with
  | zero => rfl
  | succ depth ih =>
      rw [stages, smooth_eq, Option.bind_eq_bind, Option.bind_some, ih]
      rfl

/-- Stages of one length are read within their range. -/
theorem combine_eq {stages : List (List α)} {length : Nat}
    (aligned : ∀ stage ∈ stages, stage.length = length) (weights : List α) :
    combine stages weights = some (Filter.combine stages weights) := by
  refine collect_eq fun i inside => ?_
  have read : (stages.zip weights).mapM (fun (stage, w) => do return w * (← stage[i]?)) =
      some ((stages.zip weights).map fun (stage, w) => w * stage[i]?.getD nan) := by
    refine mapM_eq fun pair member => ?_
    have known : pair.1 ∈ stages := (List.of_mem_zip member).1
    have reach : i < pair.1.length := by
      -- the first stage is as long as this one
      cases stages with
      | nil => exact absurd known List.not_mem_nil
      | cons first rest =>
          rw [aligned _ known, ← aligned first List.mem_cons_self]
          exact inside
    simp only [List.getElem?_eq_getElem reach, Option.bind_eq_bind, Option.bind_some,
      Option.getD_some, Option.pure_def]
  rw [read, List.zip, List.map_zipWith]
  rfl

theorem length_of_mem_stages {alpha : α} {depth : Nat} {data stage : List α}
    (member : stage ∈ Filter.stages alpha depth data) : stage.length = data.length := by
  induction depth generalizing data with
  | zero => exact absurd member List.not_mem_nil
  | succ depth ih =>
      rcases List.mem_cons.mp member with rfl | member
      · exact (Causal.smooth alpha).length data
      · rw [ih member, (Causal.smooth alpha).length]

/-! ## Linear filters -/

/-- The number of values that pass through. -/
def order (f : LinearFilter α) : Option Nat := do
  return max (← minus f.feedforward.length 1) f.feedback.length

/-- The weighted sum of the values that `recent` gives, newest first. -/
def tap (weights : List α) (recent : Nat → Option α) : Option α := do
  return runningSum (← collect weights.length fun k => do return (← weights[k]?) * (← recent k))

/-- The output at an index, given the outputs before it, oldest first. -/
def filterStep (f : LinearFilter α) (order : Nat) (data : List α) (i : Nat) (out : List α) :
    Option (List α × α) := do
  if i < order then
    let x ← data[i]?
    return (out ++ [x], x)
  let forward ← tap f.feedforward fun k => do data[← minus i k]?
  let back ← tap f.feedback fun k => do out[← minus (← minus i 1) k]?
  return (out ++ [forward + back], forward + back)

def applyFilter (f : LinearFilter α) (data : List α) : Option (List α) := do
  scan (filterStep f (← order f) data) 0 data.length []

theorem tap_eq {weights recent : List α} {read : Nat → Option α}
    (long : weights.length ≤ recent.length) (reads : ∀ k x, recent[k]? = some x → read k = some x) :
    tap weights read = some (LinearFilter.tap weights recent) := by
  have products : collect weights.length (fun k => do return (← weights[k]?) * (← read k)) =
      some (List.zipWith (· * ·) weights recent) := by
    have lengths : weights.length = (List.zipWith (· * ·) weights recent).length := by
      rw [List.length_zipWith, Nat.min_eq_left long]
    rw [lengths]
    refine collect_values fun k y there => ?_
    obtain ⟨w, x, weight, value, rfl⟩ := List.getElem?_zipWith_eq_some.mp there
    rw [weight, reads k x value]
    rfl
  rw [tap, products]
  rfl

omit [Scalar α] in
theorem order_eq {f : LinearFilter α} (forward : f.feedforward ≠ []) :
    order f = some f.order := by
  have positive : 1 ≤ f.feedforward.length := List.length_pos_iff.mpr forward
  rw [order, minus_eq positive]
  rfl

omit [Scalar α] in
/-- Reading back from the end of a list. -/
theorem getElem?_reverse_take {data : List α} {i k : Nat} {x : α} (inside : i ≤ data.length)
    (there : ((data.take i).reverse)[k]? = some x) :
    k < i ∧ data[i - 1 - k]? = some x := by
  obtain ⟨reach, -⟩ := List.getElem?_eq_some_iff.mp there
  rw [List.length_reverse, List.length_take, Nat.min_eq_left inside] at reach
  rw [List.getElem?_reverse (by rwa [List.length_take, Nat.min_eq_left inside]), List.length_take,
    Nat.min_eq_left inside, List.getElem?_take_of_lt (by omega)] at there
  exact ⟨reach, there⟩

/-- The value that a filter answers to `x` after some inputs and outputs, newest first. -/
def filterValue (f : LinearFilter α) (passing : Nat) (inputs outputs : List α) (x : α) : α :=
  if passing = 0 then LinearFilter.tap f.feedforward (x :: inputs) + LinearFilter.tap f.feedback outputs
  else x

theorem filterStep_eq (f : LinearFilter α) {data out : List α} {i : Nat} {x : α}
    (here : data[i]? = some x) (count : out.length = i) :
    let y := filterValue f (f.order - i) (data.take i).reverse out.reverse x
    filterStep f f.order data i out = some (out ++ [y], y) := by
  obtain ⟨inside, -⟩ := List.getElem?_eq_some_iff.mp here
  unfold filterStep filterValue
  by_cases passes : i < f.order
  · rw [if_pos passes, if_neg (by omega), here]
    rfl
  · have reach : max (f.feedforward.length - 1) f.feedback.length ≤ i := Nat.not_lt.mp passes
    have newest : x :: (data.take i).reverse = (data.take (i + 1)).reverse := by
      rw [List.take_add_one, here, Option.toList_some, List.reverse_append]
      rfl
    have forward : tap f.feedforward (fun k => do data[← minus i k]?) =
        some (LinearFilter.tap f.feedforward (x :: (data.take i).reverse)) := by
      refine tap_eq ?_ fun k value there => ?_
      · rw [List.length_cons, List.length_reverse, List.length_take]
        omega
      · rw [newest] at there
        obtain ⟨back, found⟩ := getElem?_reverse_take inside there
        rw [minus_eq (Nat.le_of_lt_succ back)]
        exact found
    have back : tap f.feedback (fun k => do out[← minus (← minus i 1) k]?) =
        some (LinearFilter.tap f.feedback out.reverse) := by
      refine tap_eq ?_ fun k value there => ?_
      · rw [List.length_reverse]
        omega
      · rw [← List.take_length (l := out), count] at there
        obtain ⟨back, found⟩ := getElem?_reverse_take (Nat.le_of_eq count.symm) there
        simp only [minus_eq (show 1 ≤ i by omega), minus_eq (show k ≤ i - 1 by omega),
          Option.bind_eq_bind, Option.bind_some]
        exact found
    rw [if_neg passes, if_pos (by omega), forward, back]
    rfl

theorem applyFilter_eq {f : LinearFilter α} (forward : f.feedforward ≠ []) (data : List α) :
    applyFilter f data = some (f.apply data) := by
  rw [applyFilter, order_eq forward, Option.bind_eq_bind, Option.bind_some]
  refine scan_eq data (g := fun (passing, inputs, outputs) => f.applyFrom passing inputs outputs)
    (fun (passing, inputs, outputs) x => filterValue f passing inputs outputs x)
    (fun (passing, inputs, outputs) x =>
      (passing - 1, x :: inputs, filterValue f passing inputs outputs x :: outputs))
    (fun (passing, _, _) => by cases passing <;> rfl)
    (fun (passing, _, _) _ _ => by cases passing <;> rfl)
    (fun i (passing, inputs, outputs) (out : List α) => passing = f.order - i ∧
      inputs = (data.take i).reverse ∧ outputs = out.reverse ∧ out.length = i) ?_
    (i := 0) (s := (f.order, [], [])) (t := []) ⟨rfl, rfl, rfl, rfl⟩
  rintro i x ⟨_, _, _⟩ out here ⟨rfl, rfl, rfl, count⟩
  refine ⟨_, filterStep_eq f here count, by omega, ?_, ?_, ?_⟩
  · rw [List.take_add_one, here, Option.toList_some, List.reverse_append]
    rfl
  · rw [List.reverse_append]
    rfl
  · rw [List.length_append, List.length_singleton, count]

/-! ## The relative strength index -/

/-- The averages over the first changes. -/
def rsiSeed (period : Nat) (data : List α) : Option (Rsi.Averages α) := do
  let total ← loop (fun i s => do return Rsi.addChange s (← change data i)) 1 period ⟨0, 0⟩
  return ⟨total.gain / ofCount period, total.loss / ofCount period⟩

def rsi (period : Nat) (data : List α) : Option (List α) := do
  let values := List.replicate data.length 50
  if data.length ≤ period then return values
  let start ← rsiSeed period data
  let values ← put values period (Rsi.value start)
  fill (fun i s => do
    let s := Rsi.next period s (← change data i)
    return (s, Rsi.value s)) (period + 1) (data.length - (period + 1)) start values

theorem rsiSeed_eq {period : Nat} {data : List α} (long : period < data.length) :
    rsiSeed period data = some (Rsi.seed period ((Adaptive.changes data).take period)) := by
  have looped := loop_eq (fun i s => do return Rsi.addChange s (← change data i))
    (fun i => ((Adaptive.changes data).take (i - 1)).foldl Rsi.addChange ⟨0, 0⟩) 1 period ?_
  · rw [Nat.add_sub_cancel_left] at looped
    rw [rsiSeed]
    exact congrArg (Option.bind · _) looped
  · intro i after before
    obtain ⟨j, rfl⟩ : ∃ j, i = j + 1 := ⟨i - 1, by omega⟩
    have inside : j < (Adaptive.changes data).length := by
      rw [length_changes]
      omega
    rw [change_eq (List.getElem?_eq_getElem inside), Nat.add_sub_cancel, Nat.add_succ_sub_one,
      List.take_succ_eq_append_getElem inside, List.foldl_append]
    rfl

theorem scan_next (period : Nat) (data : List α) (start : Rsi.Averages α) :
    scan (fun i s => do
      let s := Rsi.next period s (← change data i)
      return (s, Rsi.value s)) (period + 1) (data.length - (period + 1)) start =
      some (Rsi.valuesFrom period start ((Adaptive.changes data).drop period)) := by
  -- with a value in front, every change stands at its index
  have count : data.length - (period + 1) = (0 :: Adaptive.changes data).length - (period + 1) := by
    rw [List.length_cons, length_changes]
    omega
  rw [count]
  refine scan_eq (0 :: Adaptive.changes data) (g := Rsi.valuesFrom period)
    (fun s change => Rsi.value (Rsi.next period s change)) (Rsi.next period) (fun _ => rfl)
    (fun _ _ _ => rfl) (fun i s t => 0 < i ∧ s = t) ?_ ⟨Nat.succ_pos _, rfl⟩
  rintro i x s _ here ⟨positive, rfl⟩
  obtain ⟨j, rfl⟩ : ∃ j, i = j + 1 := ⟨i - 1, by omega⟩
  rw [List.getElem?_cons_succ] at here
  exact ⟨_, by rw [change_eq here]; rfl, Nat.succ_pos _, rfl⟩

theorem rsi_eq (period : Nat) (data : List α) : rsi period data = some (Rsi.values period data) := by
  by_cases short : data.length ≤ period
  · rw [rsi, if_pos short, Rsi.values_short short]
    rfl
  · have long : period < data.length := Nat.not_le.mp short
    obtain ⟨later, length⟩ : ∃ later, data.length = period + (later + 1) :=
      ⟨data.length - period - 1, by omega⟩
    obtain ⟨start, seed⟩ : ∃ s, s = Rsi.seed period ((Adaptive.changes data).take period) :=
      ⟨_, rfl⟩
    have blank : List.replicate data.length (50 : α) =
        List.replicate period 50 ++ 50 :: List.replicate later 50 := by
      rw [length, List.replicate_add, List.replicate_succ]
    have seeded : put (List.replicate data.length 50) period (Rsi.value start) =
        some (List.replicate period 50 ++ Rsi.value start :: List.replicate later 50) := by
      have replaced := put_append (List.replicate period (50 : α)) 50 (Rsi.value start)
        (List.replicate later 50)
      rwa [List.length_replicate, ← blank] at replaced
    have filled := fill_eq (50 : α) (List.replicate period 50 ++ [Rsi.value start])
      (s := start) (by simpa using scan_next period data start)
    rw [List.length_append, List.length_replicate, List.length_singleton, List.append_assoc,
      List.append_assoc, show data.length - (period + 1) = later by omega] at filled
    rw [rsi, if_neg short, rsiSeed_eq long, Rsi.values_long long, ← seed, Option.bind_eq_bind,
      Option.bind_some, Option.bind_eq_bind, seeded, Option.bind_some,
      show data.length - (period + 1) = later by omega]
    exact filled

end Chartist.Indexed
