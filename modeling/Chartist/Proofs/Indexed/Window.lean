import Chartist.Indicator.OnSeries
import Chartist.Proofs.Indexed.Basic
import Chartist.Proofs.Local.Basic

/-!
# Windows by index

Reductions in lanes, windows and their statistics, kernels, medians, ranks and the running
extremes, each step at its index. A window asserts that its length is not zero. The indices of
the values in the deque stand for the values themselves (`rollingExtreme_eq`).
-/

namespace Chartist.Indexed

open Window Scalar

variable {α : Type}

/-! ## Reductions -/

/-- A reduction of the elements that `read` gives at the indices below `length`: full groups
of four in lanes, and what is left one by one. -/
def reduce (step last : α → α → α) (join : Lanes α → α) (start : Lanes α) (length : Nat)
    (read : Nat → Option α) : Option α := do
  let groups := length / 4
  let lanes ← loop (fun i (acc : Lanes α) => do
    return ⟨step acc.first (← read (i * 4)), step acc.second (← read (i * 4 + 1)),
      step acc.third (← read (i * 4 + 2)), step acc.fourth (← read (i * 4 + 3))⟩) 0 groups start
  loop (fun i acc => do return last acc (← read i)) (groups * 4) (← minus length (groups * 4))
    (join lanes)

/-- A reduction of less than a group. -/
theorem loop_foldl {last : α → α → α} (read : Nat → Option α) {xs : List α} (acc : α)
    (reads : ∀ i x, xs[i]? = some x → read i = some x) :
    loop (fun i acc => do return last acc (← read i)) 0 xs.length acc =
      some (xs.foldl last acc) := by
  induction xs generalizing read acc with
  | nil => rfl
  | cons x rest ih =>
      have later := ih (fun i => read (i + 1)) (last acc x) fun i y there =>
        reads (i + 1) y (by rwa [List.getElem?_cons_succ])
      simp only [List.length_cons, loop, reads 0 x rfl, Option.bind_eq_bind, Option.bind_some,
        Option.pure_def, loop_shift _ 0, List.foldl_cons] at later ⊢
      exact later

theorem reduce_eq {step last : α → α → α} {join : Lanes α → α} {start : Lanes α}
    (read : Nat → Option α) (xs : List α) (reads : ∀ i x, xs[i]? = some x → read i = some x) :
    reduce step last join start xs.length read =
      some ((Lanes.fold step start xs).2.foldl last (join (Lanes.fold step start xs).1)) := by
  fun_induction Lanes.fold step start xs generalizing read with
  | case1 acc a b c d rest ih =>
      -- one group is taken off, and every index is four less for the rest
      have later := ih (fun i => read (i + 4)) fun i x there => reads (i + 4) x there
      have groups : (a :: b :: c :: d :: rest).length / 4 = rest.length / 4 + 1 := by
        simp only [List.length_cons]
        omega
      have left : minus (a :: b :: c :: d :: rest).length (rest.length / 4 * 4 + 4) =
          minus rest.length (rest.length / 4 * 4) := by
        simp only [List.length_cons]
        rw [minus_eq (by omega), minus_eq (by omega)]
        congr 1
        omega
      have first : read 0 = some a := reads 0 a rfl
      have second : read 1 = some b := reads 1 b rfl
      have third : read 2 = some c := reads 2 c rfl
      have fourth : read 3 = some d := reads 3 d rfl
      rw [← later]
      simp only [reduce, groups, left, loop, Nat.zero_mul, Nat.zero_add, first, second, third,
        fourth, Option.bind_eq_bind, Option.bind_some, Option.pure_def, loop_shift _ 0 _ 1,
        Nat.add_mul, Nat.one_mul, loop_shift _ _ _ 4, Nat.add_right_comm _ 4]
  | case2 acc rest short =>
      have few : rest.length / 4 = 0 := by
        rcases rest with _ | ⟨a, _ | ⟨b, _ | ⟨c, _ | ⟨d, more⟩⟩⟩⟩
        case cons.cons.cons.cons => exact absurd rfl (short a b c d more)
        all_goals simp
      simp only [reduce, few, loop, Nat.zero_mul, minus_eq (Nat.zero_le _), Nat.sub_zero,
        Option.bind_eq_bind, Option.bind_some]
      exact loop_foldl read _ reads

/-! ## Running extremes -/

/-- Drops the indices at the back whose values the new one beats. -/
def dropBack (keep : α → α → Bool) (data : List α) (value : α) : List Nat → Option (List Nat)
  | [] => some []
  | back :: rest => do
    if keep (← data[back]?) value then return back :: rest
    else dropBack keep data value rest

/-- Drops the index at the front once the window has moved past it. -/
def dropFront (length i : Nat) (q : List Nat) : List Nat :=
  if (q.getLast?.map fun front => decide (front + length ≤ i)).getD false then q.dropLast else q

/-- The indices in the deque after the value at `i`, and the extreme of the window there. -/
def extremeStep (keep : α → α → Bool) (data : List α) (length i : Nat) (q : List Nat) :
    Option (List Nat × α) := do
  let value ← data[i]?
  let q := dropFront length i (i :: (← dropBack keep data value q))
  match q.getLast? with
  | some front => return (q, ← data[front]?)
  | none => return (q, value)

def rollingExtreme (keep : α → α → Bool) (data : List α) (length : Nat) : Option (List α) :=
  scan (extremeStep keep data length) 0 data.length []

/-- The candidates of a deque with their values are the values at their indices. -/
def Indexes (data : List α) (q : Deque α) : Prop := ∀ c ∈ q, data[c.1]? = some c.2

variable [Scalar α]

/-- The sum of the elements that `read` gives. -/
def total (length : Nat) (read : Nat → Option α) : Option α :=
  reduce (· + ·) (· + ·) (fun acc => (acc.first + acc.second) + (acc.third + acc.fourth))
    (.splat 0) length read

/-- The sum of a list. -/
def sum (xs : List α) : Option α := total xs.length fun i => xs[i]?

/-- The sum of the squared distances from `mean`. -/
def sumSqDev (xs : List α) (mean : α) : Option α :=
  total xs.length fun i => do
    let x ← xs[i]?
    return (x - mean) * (x - mean)

/-- The sum of the products of two lists, as far as both reach. -/
def dot (xs ys : List α) : Option α :=
  total (min xs.length ys.length) fun i => do return (← xs[i]?) * (← ys[i]?)

/-- The least and the greatest value of a list that is not empty. -/
def extent (xs : List α) : Option (Option (α × α)) := do
  if xs.isEmpty then return none
  let least ← reduce laneMin minNum
    (fun acc => minNum (minNum (minNum acc.first acc.second) acc.third) acc.fourth)
    (.splat infinity) xs.length fun i => xs[i]?
  let greatest ← reduce laneMax maxNum
    (fun acc => maxNum (maxNum (maxNum acc.first acc.second) acc.third) acc.fourth)
    (.splat (-infinity)) xs.length fun i => xs[i]?
  return some (least, greatest)

theorem total_eq {read : Nat → Option α} (xs : List α)
    (reads : ∀ i x, xs[i]? = some x → read i = some x) :
    total xs.length read = some (Window.sum xs) :=
  reduce_eq read xs reads

theorem sum_eq (xs : List α) : sum xs = some (Window.sum xs) := total_eq xs fun _ _ => id

theorem sumSqDev_eq (xs : List α) (mean : α) :
    sumSqDev xs mean = some (Window.sumSqDev xs mean) := by
  have length : xs.length = (xs.map fun x => (x - mean) * (x - mean)).length :=
    (List.length_map _).symm
  rw [sumSqDev, length]
  refine total_eq _ fun i y there => ?_
  rw [List.getElem?_map] at there
  obtain ⟨x, found, rfl⟩ := Option.map_eq_some_iff.mp there
  rw [found]
  rfl

theorem dot_eq (xs ys : List α) : dot xs ys = some (Window.dot xs ys) := by
  have length : min xs.length ys.length = (List.zipWith (· * ·) xs ys).length :=
    List.length_zipWith.symm
  rw [dot, length]
  refine total_eq _ fun i y there => ?_
  obtain ⟨a, b, left, right, rfl⟩ := List.getElem?_zipWith_eq_some.mp there
  rw [left, right]
  rfl

theorem extent_eq (xs : List α) : extent xs = some (Window.extent xs) := by
  unfold extent Window.extent
  split
  · rfl
  · rw [reduce_eq _ xs fun _ _ => id, reduce_eq _ xs fun _ _ => id]
    rfl

/-! ## Windows -/

/-- The values of the window of `length`, which is not zero, that ends at `stop`. -/
def trailing (data : List α) (stop length : Nat) : Option (List α) := do
  guard (0 < length)
  slice data (← minus (stop + 1) (min length (stop + 1))) (stop + 1)

/-- A statistic of the window at every index. -/
def rolling (f : List α → Option α) (data : List α) (length : Nat) : Option (List α) :=
  collect data.length fun i => do f (← trailing data i length)

/-- The sums of the windows, each divided by how many values its window holds. -/
def rollingMean (data : List α) (length : Nat) : Option (List α) := do
  return (← rolling sum data length).mapIdx fun i total => total / ofCount (min length (i + 1))

/-- The population variance of a list. -/
def variance (xs : List α) : Option α := do
  let mean := (← sum xs) / ofCount xs.length
  return (← sumSqDev xs mean) / ofCount xs.length

def rollingDeviation (data : List α) (length : Nat) : Option (List α) :=
  rolling (fun xs => do return sqrt (← variance xs)) data length

omit [Scalar α] in
theorem trailing_eq {data : List α} {stop length : Nat} (positive : 0 < length)
    (inside : stop < data.length) :
    trailing data stop length = some (Window.trailing data stop length) := by
  have first : minus (stop + 1) (min length (stop + 1)) = some (start stop length) :=
    minus_eq (Nat.min_le_right _ _)
  have ends : start stop length + span stop length = stop + 1 := by
    unfold start span
    omega
  rw [trailing, first, Window.trailing, List.take_drop, ends]
  simp only [guard, positive, if_true, Option.bind_eq_bind, Option.pure_def, Option.bind_some]
  exact slice_eq (by omega) inside

omit [Scalar α] in
theorem rolling_eq {f : List α → Option α} {g : List α → α} (eq : ∀ xs, f xs = some (g xs))
    {length : Nat} (positive : 0 < length) (data : List α) :
    rolling f data length = some (Window.rolling g data length) :=
  collect_eq fun i inside => by
    rw [trailing_eq positive inside]
    exact eq _

theorem rollingMean_eq {length : Nat} (positive : 0 < length) (data : List α) :
    rollingMean data length = some (Window.rollingMean data length) := by
  rw [rollingMean, rolling_eq sum_eq positive]
  refine congrArg some (List.ext_getElem? fun i => ?_)
  simp only [List.getElem?_mapIdx, Window.rolling, Window.rollingMean, List.getElem?_map]
  by_cases inside : i < data.length
  · simp only [List.getElem?_range inside, Option.map_some, mean, length_trailing inside, span]
  · simp [List.getElem?_eq_none (l := List.range data.length) (by simpa using inside)]

theorem variance_eq (xs : List α) : variance xs = some (Window.variance xs) := by
  rw [variance, sum_eq]
  simp only [Option.bind_eq_bind, Option.bind_some, sumSqDev_eq]
  rfl

theorem rollingDeviation_eq {length : Nat} (positive : 0 < length) (data : List α) :
    rollingDeviation data length = some (Window.rollingDeviation data length) :=
  rolling_eq (fun xs => by rw [variance_eq]; rfl) positive data

/-! ## Ranks -/

/-- The rank of the value at `stop` within the window that ends there. -/
def rank (percent : Bool) (data : List α) (stop length : Nat) (degenerate : α) : Option α := do
  match ← extent (← trailing data stop length) with
  | some (low, high) =>
    if lt low high then
      let x ← data[stop]?
      if percent then return clamp (100 * (x - low) / (high - low)) 0 100
      else return clamp ((x - low) / (high - low)) 0 1
    else return degenerate
  | none => return degenerate

def ranks (window : Window) (percent : Bool) (data : List α) : Option (List α) :=
  let degenerate : α := if percent then 50 else 0.5
  collect data.length fun i =>
    if window.isReady i then rank percent data i window.length degenerate
    else return degenerate

theorem rank_eq (percent : Bool) {data : List α} {stop length : Nat} {x : α}
    (positive : 0 < length) (here : data[stop]? = some x) (degenerate : α) :
    rank percent data stop length degenerate =
      some (if percent then percentRank (Window.trailing data stop length) x degenerate
        else Window.rank (Window.trailing data stop length) x degenerate) := by
  obtain ⟨inside, -⟩ := List.getElem?_eq_some_iff.mp here
  simp only [rank, trailing_eq positive inside, extent_eq, here, Option.bind_eq_bind,
    Option.bind_some, Option.pure_def, percentRank, Window.rank]
  cases Window.extent (Window.trailing data stop length) with
  | none => cases percent <;> rfl
  | some extremes =>
      by_cases wide : lt extremes.1 extremes.2 = true
      · simp only [wide, if_true]
        cases percent <;> rfl
      · simp only [wide]
        cases percent <;> rfl

theorem ranks_eq {window : Window} (positive : 0 < window.length) (percent : Bool)
    (data : List α) : ranks window percent data = some (SeriesIndicator.ranks window percent data) := by
  refine collect_eq fun i inside => ?_
  have here := List.getElem?_eq_getElem inside
  rw [rank_eq percent positive here, here]
  unfold guarded
  split <;> rfl

/-! ## Kernels -/

/-- The weights of a window, oldest place first. -/
def weights (k : Kernel) (length : Nat) : Option (List α) :=
  match k with
  | .triangular => collect length fun i => do return ofCount (min (i + 1) (← minus length i))
  | .binomial =>
    scan (fun i w => do
      let left ← minus (← minus length 1) i
      return (w * ofCount left / ofCount (i + 1), w)) 0 length 1
  | k => some (k.weights length)

/-- The weighted averages of the windows: the weights of a full window are found once, those of
a shorter one each time. -/
def weightedAverage (data : List α) (kernel : Kernel) (length : Nat) : Option (List α) := do
  let full ← weights kernel length
  let fullSum ← sum full
  collect data.length fun i => do
    let xs ← trailing data i length
    if xs.length = length then return (← dot xs full) / fullSum
    else
      let part ← weights kernel xs.length
      return (← dot xs part) / (← sum part)

/-- The binomial weights from a place on. -/
theorem scan_binomial (length k left : Nat) (w : α) (places : k + left = length) :
    scan (fun i (w : α) => do
      let left ← minus (← minus length 1) i
      return (w * ofCount left / ofCount (i + 1), w)) k left w =
      some (Kernel.binomialFrom w k left) := by
  induction left generalizing k w with
  | zero => rfl
  | succ left ih =>
      have later := ih (k + 1) (w * ofCount left / ofCount (k + 1)) (by omega)
      have rest : length - 1 - k = left := by omega
      simp only [scan, minus_eq (show 1 ≤ length by omega), minus_eq (show k ≤ length - 1 by omega),
        rest, Option.bind_eq_bind, Option.bind_some, Option.pure_def] at later ⊢
      rw [later]
      rfl

theorem weights_eq (k : Kernel) (length : Nat) :
    weights k length = some (k.weights length : List α) := by
  cases k with
  | triangular =>
      exact collect_eq fun i inside => by
        rw [minus_eq (Nat.le_of_lt inside)]
        rfl
  | binomial => exact scan_binomial length 0 length 1 (Nat.zero_add _)
  | uniform | linear | sine => rfl

theorem weightedAverage_eq (kernel : Kernel) {length : Nat} (positive : 0 < length)
    (data : List α) :
    weightedAverage data kernel length = some (Window.weightedAverage data kernel length) := by
  simp only [weightedAverage, weights_eq, sum_eq, dot_eq, Option.bind_eq_bind, Option.bind_some,
    Option.pure_def]
  refine collect_eq fun i inside => ?_
  rw [trailing_eq positive inside, Option.bind_some]
  split
  next whole =>
    rw [Kernel.average, whole]
  next => rfl

/-! ## Medians -/

/-- The middle value of a list in order, or the mean of its two middle values. -/
def middle (sorted : List α) : Option α := do
  let half := sorted.length / 2
  if sorted.length % 2 = 1 then sorted[half]?
  else return ((← sorted[← minus half 1]?) + (← sorted[half]?)) / 2

def movingMedian (data : List α) (length : Nat) : Option (List α) :=
  collect data.length fun i => do middle ((← trailing data i length).mergeSort before)

theorem middle_eq {sorted : List α} (nonempty : sorted ≠ []) :
    middle sorted = some (Window.middle sorted) := by
  have positive : 0 < sorted.length := List.length_pos_iff.mpr nonempty
  have middle : sorted.length / 2 < sorted.length := Nat.div_lt_self positive Nat.one_lt_two
  have here := List.getElem?_eq_getElem middle
  unfold Indexed.middle Window.middle
  by_cases odd : sorted.length % 2 = 1
  · rw [if_pos odd, if_pos odd, here]
    rfl
  · -- a list of even length has two values or more
    have before := List.getElem?_eq_getElem (show sorted.length / 2 - 1 < sorted.length by omega)
    rw [if_neg odd, if_neg odd, minus_eq (by omega), here, Option.bind_eq_bind, Option.bind_some,
      before]
    rfl

theorem movingMedian_eq {length : Nat} (positive : 0 < length) (data : List α) :
    movingMedian data length = some (Window.movingMedian data length) := by
  refine collect_eq fun i inside => ?_
  have long : ((Window.trailing data i length).mergeSort before).length = span i length := by
    rw [List.length_mergeSort, length_trailing inside]
  rw [trailing_eq positive inside, Option.bind_eq_bind, Option.bind_some, middle_eq, median]
  refine List.ne_nil_of_length_pos ?_
  rw [long, span]
  omega

end Chartist.Indexed
