import Chartist.Proofs.Causal.Filter
import Chartist.Proofs.Indexed.Window

/-!
# Changes by index

What is computed from the changes between neighbours, and the fractal factors. The change into
an index stands at that index here, after a zero for the first value, so the windows of changes
are one later than those of `Adaptive.changesUpTo` (`slice_changes`). Lists of answers are made
first and their values replaced (`put`) where the answers come one by one (`fill_eq`).
-/

namespace Chartist.Indexed

open Window Scalar Adaptive

variable {α : Type} {S : Type}

/-! ## Filling a list -/

/-- A loop that puts the answers of a scan into a list. -/
def fill (step : Nat → S → Option (S × α)) (first count : Nat) (s : S) (out : List α) :
    Option (List α) := do
  let (_, out) ← loop (fun i (s, out) => do
    let (s, x) ← step i s
    return (s, ← put out i x)) first count (s, out)
  return out

/-- What is filled in are the answers of the scan. -/
theorem fill_eq {step : Nat → S → Option (S × α)} {count : Nat} {s : S} {answers : List α}
    (blank : α) (done : List α) (scanned : scan step done.length count s = some answers) :
    fill step done.length count s (done ++ List.replicate count blank) =
      some (done ++ answers) := by
  induction count generalizing s done answers with
  | zero =>
      cases scanned
      rfl
  | succ count ih =>
      obtain ⟨⟨s', x⟩, stepped, rest⟩ := Option.bind_eq_some_iff.mp scanned
      obtain ⟨later, scannedLater, same⟩ := Option.bind_eq_some_iff.mp rest
      cases same
      have length : (done ++ [x]).length = done.length + 1 := by
        rw [List.length_append, List.length_singleton]
      have next := ih (done ++ [x]) (length ▸ scannedLater)
      rw [length, List.append_assoc, List.append_assoc, List.singleton_append,
        List.singleton_append] at next
      rw [← next]
      simp only [fill, loop, stepped, List.replicate_succ, Option.bind_eq_bind, Option.bind_some,
        put_append]
      rfl

variable [Scalar α]

/-! ## Changes -/

/-- The change into an index from the one before. -/
def change (data : List α) (i : Nat) : Option α := do
  return (← data[i]?) - (← data[← minus i 1]?)

theorem neighbours {data : List α} {i : Nat} {d : α} (here : (changes data)[i]? = some d) :
    ∃ old new, data[i]? = some old ∧ data[i + 1]? = some new ∧ d = new - old := by
  unfold changes at here
  obtain ⟨old, new, left, right, rfl⟩ := List.getElem?_zipWith_eq_some.mp here
  rw [List.getElem?_drop, Nat.add_comm] at right
  exact ⟨old, new, left, right, rfl⟩

theorem change_eq {data : List α} {i : Nat} {d : α} (here : (changes data)[i]? = some d) :
    change data (i + 1) = some d := by
  obtain ⟨old, new, left, right, rfl⟩ := neighbours here
  rw [change, right, minus_eq (Nat.le_add_left 1 i)]
  simp only [Nat.add_sub_cancel, left, Option.bind_eq_bind, Option.bind_some, Option.pure_def]

theorem length_changes (data : List α) : (changes data).length = data.length - 1 := by
  rw [changes, List.length_zipWith, List.length_drop]
  omega

/-- The window of changes that ends at an index, cut out of a list with a zero in front. -/
theorem slice_changes {data : List α} {i : Nat} (inside : i < data.length) (length : Nat)
    (zero : α) (f : α → α) :
    slice (zero :: (changes data).map f) (i - length + 1) (i + 1) =
      some (changesUpTo ((changes data).map f) i length) := by
  have long : i + 1 ≤ (zero :: (changes data).map f).length := by
    rw [List.length_cons, List.length_map, length_changes]
    omega
  rw [slice_eq (by omega) long, List.take_succ_cons, List.drop_succ_cons, List.drop_take]
  rfl

/-! ## The efficiency ratio -/

/-- The sizes of the changes, with a zero for the first value. -/
def sizes (data : List α) : Option (List α) := do
  if data.isEmpty then return []
  let sizes ← collect (data.length - 1) fun i => do
    return Scalar.abs ((← data[i + 1]?) - (← data[i]?))
  return 0 :: sizes

def efficiencyRatio (data : List α) (period : Nat) : Option (List α) := do
  let sizes ← sizes data
  collect data.length fun i => do
    let start := i - period
    let path ← sum (← slice sizes (start + 1) (i + 1))
    let distance := Scalar.abs ((← data[i]?) - (← data[start]?))
    return clamp (distance / maxNum path epsilon) 0 1

theorem sizes_eq {data : List α} (nonempty : data ≠ []) :
    sizes data = some (0 :: (changes data).map Scalar.abs) := by
  have collected : collect (data.length - 1) (fun i => do
      return Scalar.abs ((← data[i + 1]?) - (← data[i]?))) =
      some ((changes data).map Scalar.abs) := by
    have lengths : data.length - 1 = ((changes data).map Scalar.abs).length := by
      rw [List.length_map, length_changes]
    rw [lengths]
    refine collect_values fun i x here => ?_
    rw [List.getElem?_map] at here
    obtain ⟨d, found, rfl⟩ := Option.map_eq_some_iff.mp here
    obtain ⟨old, new, left, right, rfl⟩ := neighbours found
    rw [left, right]
    rfl
  rw [sizes, if_neg (by simpa using nonempty), collected]
  rfl

theorem efficiencyRatio_eq (data : List α) (period : Nat) :
    efficiencyRatio data period = some (Adaptive.efficiencyRatio data period) := by
  cases data with
  | nil => rfl
  | cons first rest =>
      rw [efficiencyRatio, sizes_eq (List.cons_ne_nil _ _), Option.bind_eq_bind, Option.bind_some]
      refine collect_eq fun i inside => ?_
      have here := List.getElem?_eq_getElem inside
      have start := List.getElem?_eq_getElem (Nat.lt_of_le_of_lt (Nat.sub_le i period) inside)
      simp only [slice_changes inside, Option.bind_eq_bind, Option.bind_some, sum_eq, here, start,
        Option.getD_some]
      rfl

/-! ## The momentum -/

/-- The gains and the losses, each with a zero where there is none. -/
def gainsAndLosses (data : List α) : Option (List α × List α) :=
  let zeros : List α := List.replicate data.length 0
  loop (fun i (gains, losses) => do
    let d ← change data i
    if lt 0 d then return (← put gains i d, losses) else return (gains, ← put losses i (-d)))
    1 (data.length - 1) (zeros, zeros)

def momentum (data : List α) (length : Nat) : Option (List α) := do
  let (gains, losses) ← gainsAndLosses data
  collect data.length fun i => do
    let start := i - length
    let up ← sum (← slice gains (start + 1) (i + 1))
    let down ← sum (← slice losses (start + 1) (i + 1))
    let total := up + down
    return if lt epsilon total then clamp ((up - down) / total) (-1) 1 else 0

/-- A zero, the parts of the changes before an index, and zeros from there on. -/
def partsUpTo (part : α → α) (data : List α) (i : Nat) : List α :=
  0 :: ((changes data).take (i - 1)).map part ++ List.replicate (data.length - i) 0

/-- The value at an index is still zero, and the next list has the part of its change there. -/
theorem partsUpTo_succ (part : α → α) {data : List α} {i : Nat} {d : α}
    (here : (changes data)[i]? = some d) :
    ∃ done rest, done.length = i + 1 ∧ partsUpTo part data (i + 1) = done ++ 0 :: rest ∧
      partsUpTo part data (i + 2) = done ++ part d :: rest := by
  obtain ⟨inside, rfl⟩ := List.getElem?_eq_some_iff.mp here
  have short : i < data.length - 1 := length_changes data ▸ inside
  have zeros : data.length - (i + 1) = data.length - (i + 2) + 1 := by omega
  refine ⟨0 :: ((changes data).take i).map part, List.replicate (data.length - (i + 2)) 0, ?_, ?_, ?_⟩
  · rw [List.length_cons, List.length_map, List.length_take, Nat.min_eq_left (by omega)]
  · rw [partsUpTo, zeros, List.replicate_succ]
    rfl
  · rw [partsUpTo, Nat.add_succ_sub_one, List.take_succ_eq_append_getElem inside, List.map_append,
      ← List.cons_append, List.append_assoc]
    rfl

theorem gainsAndLosses_eq {data : List α} (nonempty : data ≠ []) :
    gainsAndLosses data =
      some (0 :: (changes data).map gain, 0 :: (changes data).map loss) := by
  have positive : 0 < data.length := List.length_pos_iff.mpr nonempty
  have start (part : α → α) : partsUpTo part data 1 = List.replicate data.length 0 := by
    obtain ⟨n, length⟩ : ∃ n, data.length = n + 1 := ⟨data.length - 1, by omega⟩
    rw [partsUpTo, length, List.replicate_succ]
    rfl
  have finish (part : α → α) : partsUpTo part data (1 + (data.length - 1)) =
      0 :: (changes data).map part := by
    rw [partsUpTo, Nat.add_sub_cancel_left, List.take_of_length_le (Nat.le_of_eq (length_changes data)),
      Nat.add_sub_cancel' positive, Nat.sub_self]
    simp
  have looped := loop_eq
    (fun i ((gains, losses) : List α × List α) => do
      let d ← change data i
      if lt 0 d then return (← put gains i d, losses) else return (gains, ← put losses i (-d)))
    (fun i => (partsUpTo gain data i, partsUpTo loss data i)) 1 (data.length - 1) ?_
  · rwa [start, start, finish, finish] at looped
  · intro i after before
    obtain ⟨j, rfl⟩ : ∃ j, i = j + 1 := ⟨i - 1, by omega⟩
    have inside : j < (changes data).length := by
      rw [length_changes]
      omega
    obtain ⟨d, here⟩ : ∃ d, (changes data)[j]? = some d := ⟨_, List.getElem?_eq_getElem inside⟩
    obtain ⟨done, rest, length, now, next⟩ := partsUpTo_succ gain here
    obtain ⟨done', rest', length', now', next'⟩ := partsUpTo_succ loss here
    rw [now, now', next, next']
    simp only [change_eq here, Option.bind_eq_bind, Option.bind_some]
    by_cases up : lt 0 d = true
    · rw [if_pos up, ← length, put_append, gain, if_pos up, loss, if_pos up]
      rfl
    · rw [if_neg up, ← length', put_append, gain, if_neg up, loss, if_neg up]
      rfl

theorem momentum_eq (data : List α) (length : Nat) :
    momentum data length = some (Adaptive.momentum data length) := by
  cases data with
  | nil => rfl
  | cons first rest =>
      rw [momentum, gainsAndLosses_eq (List.cons_ne_nil _ _), Option.bind_eq_bind, Option.bind_some]
      refine collect_eq fun i inside => ?_
      simp only [slice_changes inside, Option.bind_eq_bind, Option.bind_some, sum_eq]
      rfl

/-! ## Fractal factors -/

def fractalAlphas (highs lows : List α) (period : Nat) : Option (List α) :=
  let half := period / 2
  scan (fun i (dimension : α) => do
    if i + 1 < period then return (dimension, 1)
    let start ← minus (i + 1) period
    let mid := start + half
    let n1 := channelRange (← slice highs start mid) (← slice lows start mid) / ofCount half
    let n2 := channelRange (← slice highs mid (i + 1)) (← slice lows mid (i + 1)) / ofCount half
    let n3 := channelRange (← slice highs start (i + 1)) (← slice lows start (i + 1))
      / ofCount period
    let dimension := (fractalDimension (n1, n2, n3)).getD dimension
    return (dimension, dimensionAlpha dimension)) 0 (min highs.length lows.length) 1

omit [Scalar α] in
/-- A full window and its two halves as slices. -/
theorem slices_eq (data : List α) {i period : Nat} (inside : i < data.length)
    (full : period ≤ i + 1) :
    let start := i + 1 - period
    let mid := start + period / 2
    slice data start mid = some ((Window.trailing data i period).take (period / 2)) ∧
      slice data mid (i + 1) = some ((Window.trailing data i period).drop (period / 2)) ∧
      slice data start (i + 1) = some (Window.trailing data i period) := by
  have whole : Window.trailing data i period = (data.drop (i + 1 - period)).take period := by
    unfold Window.trailing start span
    rw [Nat.min_eq_left full]
  refine ⟨?_, ?_, ?_⟩
  · rw [slice_eq (by omega) (by omega), whole, List.take_take, List.drop_take]
    congr 2
    omega
  · rw [slice_eq (by omega) (by omega), whole, List.drop_take, List.drop_take, List.drop_drop]
    congr 2
    omega
  · rw [slice_eq (by omega) (by omega), whole, List.drop_take]
    congr 2
    omega

theorem fractalAlphas_eq (highs lows : List α) (period : Nat) :
    fractalAlphas highs lows period = some (Adaptive.fractalAlphas highs lows period) := by
  have count : min highs.length lows.length =
      (List.range (min highs.length lows.length)).length - 0 := by simp
  unfold fractalAlphas
  rw [count]
  refine scan_eq (List.range (min highs.length lows.length))
    (g := fractalAlphasFrom highs lows period)
    (fun d i => if i + 1 < period then 1 else dimensionAlpha (dimensionAt highs lows period d i))
    (dimensionAt highs lows period) (fun _ => rfl) (fun d i rest => ?_) (fun _ s t => s = t) ?_ rfl
  · rw [fractalAlphasFrom, dimensionAt]
    split <;> rfl
  · rintro i x s _ here rfl
    obtain ⟨inside, rfl⟩ := List.getElem?_eq_some_iff.mp here
    simp only [List.length_range] at inside
    rw [List.getElem_range]
    by_cases warm : i + 1 < period
    · exact ⟨s, by simp [warm, dimensionAt]⟩
    · obtain ⟨older, newer, all⟩ := slices_eq highs (by omega) (Nat.not_lt.mp warm)
      obtain ⟨older', newer', all'⟩ := slices_eq lows (by omega) (Nat.not_lt.mp warm)
      refine ⟨_, ?_, rfl⟩
      simp only [warm, if_false, minus_eq (Nat.not_lt.mp warm), Option.bind_eq_bind,
        Option.bind_some, older, newer, all, older', newer', all', dimensionAt]
      rfl

end Chartist.Indexed
