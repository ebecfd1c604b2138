import Chartist.Proofs.Exact.Window
import Chartist.Proofs.Indexed.Window
import Chartist.Window.Word

/-!
# Windows on words

The computations of `Chartist.Indexed` with every sum of two indices formed on words: the places of
a group of four, the index after the end of a window, the number of values up to an index and the
places of a kernel. Each of these is at most the length of the data or of the window, so a word
holds it (`Overflow.add_eq`), and the answers are the exact ones whatever becomes of larger sums.

Kernels and medians set room for a whole window aside before they look at the data, and have no
answer where there is none (`weightedAverage_eq_none`, `movingMedian_eq_none`).
-/

namespace Chartist.Indexed

variable {σ S : Type}

/-- Loops whose steps agree at the indices that they pass. -/
theorem loop_congr {f g : Nat → S → Option S} {first count : Nat} (s : S)
    (steps : ∀ i, first ≤ i → i < first + count → ∀ s, f i s = g i s) :
    loop f first count s = loop g first count s := by
  induction count generalizing first s with
  | zero => rfl
  | succ count ih =>
      rw [loop, loop, steps first (Nat.le_refl _) (by omega)]
      refine bind_congr fun next => ih next fun i after before => ?_
      exact steps i (by omega) (by omega)

theorem scan_congr {f g : Nat → S → Option (S × σ)} {first count : Nat} (s : S)
    (steps : ∀ i, first ≤ i → i < first + count → ∀ s, f i s = g i s) :
    scan f first count s = scan g first count s := by
  induction count generalizing first s with
  | zero => rfl
  | succ count ih =>
      rw [scan, scan, steps first (Nat.le_refl _) (by omega)]
      refine bind_congr ?_
      rintro ⟨next, x⟩
      have later : scan f (first + 1) count next = scan g (first + 1) count next :=
        ih next fun i after before => steps i (by omega) (by omega)
      dsimp only
      rw [later]

theorem collect_congr {f g : Nat → Option σ} {count : Nat} (eq : ∀ i < count, f i = g i) :
    collect count f = collect count g :=
  scan_congr () fun i _ before _ => by rw [eq i (by omega)]

end Chartist.Indexed

namespace Chartist.Window.Overflow

open Indexed (minus slice loop collect scan)
open Scalar

variable {α : Type} (o : Overflow)

/-! ## Reductions -/

/-- A reduction of the elements that `read` gives at the indices below `length`. -/
def reduce (step last : α → α → α) (join : Lanes α → α) (start : Lanes α) (length : Nat)
    (read : Nat → Option α) : Option α := do
  let groups := length / 4
  let lanes ← loop (fun i (acc : Lanes α) => do
    return ⟨step acc.first (← read (i * 4)), step acc.second (← read (← o.add (i * 4) 1)),
      step acc.third (← read (← o.add (i * 4) 2)), step acc.fourth (← read (← o.add (i * 4) 3))⟩)
    0 groups start
  loop (fun i acc => do return last acc (← read i)) (groups * 4) (← minus length (groups * 4))
    (join lanes)

theorem reduce_eq {step last : α → α → α} {join : Lanes α → α} {start : Lanes α} {length : Nat}
    (held : length < wordCount) (read : Nat → Option α) :
    o.reduce step last join start length read =
      Indexed.reduce step last join start length read := by
  unfold reduce Indexed.reduce
  refine congrArg (· >>= _) (Indexed.loop_congr start fun i _ before acc => ?_)
  -- a full group ends within the list
  have place (k : Nat) (le : k ≤ 3) : o.add (i * 4) k = some (i * 4 + k) := o.add_eq (by omega)
  simp only [place, Nat.reduceLeDiff, Option.bind_eq_bind, Option.bind_some]

variable [Scalar α]

def total (length : Nat) (read : Nat → Option α) : Option α :=
  o.reduce (· + ·) (· + ·) (fun acc => (acc.first + acc.second) + (acc.third + acc.fourth))
    (.splat 0) length read

/-- The sum of a list. -/
def sum (xs : List α) : Option α := o.total xs.length fun i => xs[i]?

/-- The sum of the squared distances from `mean`. -/
def sumSqDev (xs : List α) (mean : α) : Option α :=
  o.total xs.length fun i => do
    let x ← xs[i]?
    return (x - mean) * (x - mean)

/-- The sum of the products of two lists, as far as both reach. -/
def dot (xs ys : List α) : Option α :=
  o.total (min xs.length ys.length) fun i => do return (← xs[i]?) * (← ys[i]?)

/-- The least and the greatest value of a list that is not empty. -/
def extent (xs : List α) : Option (Option (α × α)) := do
  if xs.isEmpty then return none
  let least ← o.reduce laneMin minNum
    (fun acc => minNum (minNum (minNum acc.first acc.second) acc.third) acc.fourth)
    (.splat infinity) xs.length fun i => xs[i]?
  let greatest ← o.reduce laneMax maxNum
    (fun acc => maxNum (maxNum (maxNum acc.first acc.second) acc.third) acc.fourth)
    (.splat (-infinity)) xs.length fun i => xs[i]?
  return some (least, greatest)

theorem total_eq {length : Nat} (held : length < wordCount) (read : Nat → Option α) :
    o.total length read = Indexed.total length read :=
  o.reduce_eq held read

section Lists

variable {xs : List α} (held : xs.length < wordCount)
include held

theorem sum_eq : o.sum xs = some (Window.sum xs) :=
  (o.total_eq held _).trans (Indexed.sum_eq xs)

theorem sumSqDev_eq (mean : α) : o.sumSqDev xs mean = some (Window.sumSqDev xs mean) :=
  (o.total_eq held _).trans (Indexed.sumSqDev_eq xs mean)

theorem dot_eq (ys : List α) : o.dot xs ys = some (Window.dot xs ys) :=
  (o.total_eq (Nat.lt_of_le_of_lt (Nat.min_le_left _ _) held) _).trans (Indexed.dot_eq xs ys)

theorem extent_eq : o.extent xs = some (Window.extent xs) := by
  rw [← Indexed.extent_eq]
  unfold extent Indexed.extent
  rw [o.reduce_eq held, o.reduce_eq held]

end Lists

/-! ## Windows -/

/-- The values of the window of `length`, which is not zero, that ends at `stop`. -/
def trailing (data : List α) (stop length : Nat) : Option (List α) := do
  guard (0 < length)
  let span := min length (← o.add stop 1)
  slice data (← minus (← o.add stop 1) span) (← o.add stop 1)

/-- A statistic of the window at every index. -/
def rolling (f : List α → Option α) (data : List α) (length : Nat) : Option (List α) :=
  collect data.length fun i => do f (← o.trailing data i length)

/-- The sums of the windows, each divided by how many values its window holds. -/
def rollingMean (data : List α) (length : Nat) : Option (List α) := do
  let totals ← o.rolling o.sum data length
  collect totals.length fun i => do return (← totals[i]?) / ofCount (min length (← o.add i 1))

/-- The population variance of a list. -/
def variance (xs : List α) : Option α := do
  let mean := (← o.sum xs) / ofCount xs.length
  return (← o.sumSqDev xs mean) / ofCount xs.length

def rollingDeviation (data : List α) (length : Nat) : Option (List α) :=
  o.rolling (fun xs => do return sqrt (← o.variance xs)) data length

section Windows

variable {data : List α} {length : Nat} (held : data.length < wordCount)
include held

omit [Scalar α] in
/-- A window is no longer than the data. -/
theorem length_trailing_lt {stop : Nat} (inside : stop < data.length) :
    (Window.trailing data stop length).length < wordCount := by
  rw [length_trailing inside, span]
  omega

variable (positive : 0 < length)
include positive

omit [Scalar α] in
theorem trailing_eq {stop : Nat} (inside : stop < data.length) :
    o.trailing data stop length = some (Window.trailing data stop length) := by
  rw [← Indexed.trailing_eq positive inside]
  unfold trailing Indexed.trailing
  simp only [o.add_eq (by omega : stop + 1 < wordCount), Option.bind_eq_bind, Option.bind_some]

omit [Scalar α] in
theorem rolling_eq {f : List α → Option α} {g : List α → α}
    (eq : ∀ xs, xs.length < wordCount → f xs = some (g xs)) :
    o.rolling f data length = some (Window.rolling g data length) :=
  Indexed.collect_eq fun i inside => by
    rw [o.trailing_eq held positive inside]
    exact eq _ (length_trailing_lt held inside)

theorem rollingMean_eq : o.rollingMean data length = some (Window.rollingMean data length) := by
  have totals : o.rolling o.sum data length = some (Window.rolling Window.sum data length) :=
    o.rolling_eq held positive fun _ short => o.sum_eq short
  have count : (Window.rolling Window.sum data length).length = data.length := by
    rw [Window.rolling, List.length_map, List.length_range]
  rw [rollingMean, totals, Option.bind_eq_bind, Option.bind_some, count]
  refine Indexed.collect_eq fun i inside => ?_
  have here : (Window.rolling Window.sum data length)[i]? =
      some (Window.sum (Window.trailing data i length)) := by
    rw [Window.rolling, List.getElem?_map, List.getElem?_range inside, Option.map_some]
  simp only [here, o.add_eq (by omega : i + 1 < wordCount), Option.bind_eq_bind, Option.bind_some,
    Option.pure_def, mean, length_trailing inside, span]

theorem rollingDeviation_eq :
    o.rollingDeviation data length = some (Window.rollingDeviation data length) :=
  o.rolling_eq held positive fun xs short => by
    simp only [variance, o.sum_eq short, o.sumSqDev_eq short, Option.bind_eq_bind,
      Option.bind_some]
    rfl

end Windows

/-! ## Ranks -/

/-- The rank of the value at `stop` within the window that ends there. -/
def rank (percent : Bool) (data : List α) (stop length : Nat) (degenerate : α) : Option α := do
  match ← o.extent (← o.trailing data stop length) with
  | some (low, high) =>
    if lt low high then
      let x ← data[stop]?
      if percent then return clamp (100 * (x - low) / (high - low)) 0 100
      else return clamp ((x - low) / (high - low)) 0 1
    else return degenerate
  | none => return degenerate

def ranks (window : Window) (percent : Bool) (data : List α) : Option (List α) :=
  let degenerate : α := if percent then 50 else 0.5
  collect data.length fun i => do
    if window.minHistory ≤ (← o.add i 1) then o.rank percent data i window.length degenerate
    else return degenerate

theorem ranks_eq {window : Window} (percent : Bool) {data : List α}
    (held : data.length < wordCount) (positive : 0 < window.length) :
    o.ranks window percent data = some (SeriesIndicator.ranks window percent data) := by
  rw [← Indexed.ranks_eq positive]
  refine Indexed.collect_congr fun i inside => ?_
  have same : ∀ degenerate : α, o.rank percent data i window.length degenerate =
      Indexed.rank percent data i window.length degenerate := by
    intro degenerate
    have extents : o.extent (Window.trailing data i window.length) =
        Indexed.extent (Window.trailing data i window.length) :=
      (o.extent_eq (length_trailing_lt held inside)).trans (Indexed.extent_eq _).symm
    unfold rank Indexed.rank
    rw [o.trailing_eq held positive inside, Indexed.trailing_eq positive inside]
    exact congrArg (Option.bind · _) extents
  simp only [same, o.add_eq (by omega : i + 1 < wordCount), isReady, hasHistory, decide_eq_true_eq,
    Option.bind_eq_bind, Option.bind_some]

/-! ## Kernels and medians -/

/-- The weights of the places of a window, oldest place first. -/
def placeWeights (k : Kernel) (length : Nat) : Option (List α) :=
  match k with
  | .triangular =>
    collect length fun i => do return ofCount (min (← o.add i 1) (← minus length i))
  | .binomial =>
    scan (fun i w => do
      let left ← minus (← minus length 1) i
      return (w * ofCount left / ofCount (← o.add i 1), w)) 0 length 1
  | k => some (k.weights length)

/-- The weights of a window, in room set aside for them. -/
def weights (k : Kernel) (length : Nat) : Option (List α) := do
  reserve length
  o.placeWeights k length

/-- The weighted averages of the windows: the weights of a full window are found once, those of
a shorter one each time. -/
def weightedAverage (data : List α) (kernel : Kernel) (length : Nat) : Option (List α) := do
  let full ← o.weights kernel length
  let fullSum ← o.sum full
  collect data.length fun i => do
    let xs ← o.trailing data i length
    if xs.length = length then return (← o.dot xs full) / fullSum
    else
      let part ← o.weights kernel xs.length
      return (← o.dot xs part) / (← o.sum part)

/-- The medians of the windows, each of them sorted in the same room. -/
def movingMedian (data : List α) (length : Nat) : Option (List α) := do
  reserve length
  collect data.length fun i => do
    Indexed.middle ((← o.trailing data i length).mergeSort before)

/-- The places of a window are counted up to its length. -/
theorem placeWeights_eq (k : Kernel) {length : Nat} (word : length < wordCount) :
    o.placeWeights k length = some (k.weights length : List α) := by
  rw [← Indexed.weights_eq]
  cases k with
  | triangular =>
      refine Indexed.collect_congr fun i inside => ?_
      simp only [o.add_eq (by omega : i + 1 < wordCount), Option.bind_eq_bind, Option.bind_some]
  | binomial =>
      refine Indexed.scan_congr 1 fun i _ before _ => ?_
      simp only [o.add_eq (by omega : i + 1 < wordCount), Option.bind_eq_bind, Option.bind_some]
  | uniform | linear | sine => rfl

theorem weights_eq (k : Kernel) {length : Nat} (fits : length < roomLimit) :
    o.weights k length = some (k.weights length : List α) := by
  rw [weights, reserve_eq fits]
  exact o.placeWeights_eq k (Nat.lt_of_lt_of_le fits roomLimit_le)

section Windows

variable {data : List α} {length : Nat} (held : data.length < wordCount) (positive : 0 < length)
include held positive

theorem weightedAverage_eq (kernel : Kernel) (fits : length < roomLimit) :
    o.weightedAverage data kernel length = some (Window.weightedAverage data kernel length) := by
  have full : (kernel.weights length : List α).length < wordCount := by
    rw [kernel.length_weights]
    exact Nat.lt_of_lt_of_le fits roomLimit_le
  simp only [weightedAverage, o.weights_eq kernel fits, o.sum_eq full, Option.bind_eq_bind,
    Option.bind_some]
  refine Indexed.collect_eq fun i inside => ?_
  have short : (Window.trailing data i length).length < wordCount := length_trailing_lt held inside
  have part :
      (kernel.weights (Window.trailing data i length).length : List α).length < wordCount := by
    rwa [kernel.length_weights]
  have within : (Window.trailing data i length).length < roomLimit := by
    rw [length_trailing inside, span]
    omega
  simp only [o.trailing_eq held positive inside, o.dot_eq short, o.weights_eq kernel within,
    o.sum_eq part, Option.bind_some, Option.pure_def]
  split
  next whole => rw [Kernel.average, whole]
  next => rfl

theorem movingMedian_eq (fits : length < roomLimit) :
    o.movingMedian data length = some (Window.movingMedian data length) := by
  rw [← Indexed.movingMedian_eq positive, movingMedian, reserve_eq fits, Option.bind_eq_bind,
    Option.bind_some]
  refine Indexed.collect_congr fun i inside => ?_
  rw [o.trailing_eq held positive inside, Indexed.trailing_eq positive inside]

end Windows

section Room

variable {length : Nat} (large : roomLimit ≤ length)
include large

theorem weights_eq_none (k : Kernel) : (o.weights k length : Option (List α)) = none := by
  rw [weights, reserve_eq_none large]
  rfl

theorem weightedAverage_eq_none (data : List α) (kernel : Kernel) :
    o.weightedAverage data kernel length = none := by
  rw [weightedAverage, o.weights_eq_none large]
  rfl

theorem movingMedian_eq_none (data : List α) : o.movingMedian data length = none := by
  rw [movingMedian, reserve_eq_none large]
  rfl

end Room

end Chartist.Window.Overflow
