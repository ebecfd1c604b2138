import Chartist.Proofs.Exact.Rsi
import Chartist.Proofs.Indexed.Adaptive
import Chartist.Proofs.Order.Basic
import Chartist.Scalar.Binary64

/-!
# A missing price in the relative strength index

A missing price leaves two changes that are no numbers, the one to it and the one from it. A step of
the averages passes over such changes (`next_filled`), so a price that is missing behind the seed
counts as one that did not move. The seed does not pass over them: it subtracts them from the
losses, and from there on no value is a number (`valuesFrom_lost`). Which of the two happens depends
on nothing but the place of the gap (`missing_price`).
-/

namespace Chartist.Rsi

open Adaptive Scalar

variable {α : Type} [Scalar α]

/-! ## Sums of changes -/

section Sums

variable {K : Type} [Field K]

theorem steps_cons_cons (x y : K) (rest : List K) :
    steps (x :: y :: rest) = (y - x) :: steps (y :: rest) := rfl

/-- The changes of a series that sums changes up are these changes. -/
theorem steps_scanl (start : K) (cs : List K) : steps (cs.scanl (· + ·) start) = cs := by
  induction cs generalizing start with
  | nil => rfl
  | cons c rest ih =>
      have later := ih (start + c)
      cases rest with
      | nil => simp [steps]
      | cons d rest =>
          rw [List.scanl_cons, List.scanl_cons, steps_cons_cons, add_sub_cancel_left,
            ← List.scanl_cons, later]

end Sums

/-! ## Passing over -/

/-- A change, or none in place of one that is no number. -/
def filled (c : α) : α := if isNaN c then 0 else c

/-- The changes of a series that does not move to an index nor from it. -/
def paused (j : Nat) (changes : List α) : List α := (changes.set (j - 1) 0).set j 0

theorem getElem?_paused (j i : Nat) (changes : List α) :
    (paused j changes)[i]? =
      if i = j - 1 ∨ i = j then changes[i]?.map fun _ => 0 else changes[i]? := by
  simp only [paused, List.getElem?_set']
  by_cases behind : j = i
  · have about : i = j - 1 ∨ i = j := .inr behind.symm
    rw [if_pos behind, if_pos about]
    split <;> cases changes[i]? <;> rfl
  · rw [if_neg behind]
    by_cases before : j - 1 = i
    · have about : i = j - 1 ∨ i = j := .inl before.symm
      rw [if_pos before, if_pos about]
      rfl
    · rw [if_neg before, if_neg (by omega)]

theorem filled_gap {c : α} (gap : isNaN c = true) : filled c = 0 := if_pos gap

theorem filled_number {c : α} (number : isNaN c = false) : filled c = c := by
  rw [filled, number]
  rfl

section Exact

variable {K : Type} [Field K] [LinearOrder K] {num : K → α} (exact : Exact num)
  (ordinary : Ordinary num) (absorbing : Absorbing α)

section Step

include exact ordinary absorbing

/-- A step takes a change that is no number for none. -/
theorem next_filled (period : Nat) (s : Averages α) (c : α) :
    next period s (filled c) = next period s c := by
  by_cases gap : isNaN c = true
  · have passed {d : α} (gap : isNaN d = true) : maxNum d 0 = 0 := if_pos gap
    have still : maxNum (0 : α) 0 = 0 := by
      rw [exact.zero, maxNum_num exact ordinary, max_self]
    have unsigned : (-0 : α) = 0 := by rw [exact.zero, exact.neg, neg_zero]
    simp only [next, filled_gap gap, unsigned, still, passed gap, passed (absorbing.neg c gap)]
  · rw [filled_number (Bool.eq_false_iff.mpr gap)]

theorem valuesFrom_filled (period : Nat) (s : Averages α) (cs : List α) :
    valuesFrom period s (cs.map filled) = valuesFrom period s cs := by
  induction cs generalizing s with
  | nil => rfl
  | cons c rest ih =>
      rw [List.map_cons, valuesFrom, valuesFrom, next_filled exact ordinary absorbing, ih]

end Step

/-! ## Changes about a gap -/

/-- The series is of numbers, except for a gap that is not the first value. -/
structure GapAt (j : Nat) (data : List α) : Prop where
  later : 0 < j
  gap : ∃ x, data[j]? = some x ∧ isNaN x = true
  others : ∀ x ∈ data.eraseIdx j, isFinite x = true

section Changes

variable {j : Nat} {data : List α} (gapAt : GapAt j data)
include gapAt

theorem GapAt.inside : j < data.length := by
  obtain ⟨x, here, -⟩ := gapAt.gap
  exact (List.getElem?_eq_some_iff.mp here).1

include absorbing in
/-- The two changes about the gap are no numbers. -/
theorem GapAt.missing {i : Nat} {c : α} (here : (changes data)[i]? = some c)
    (about : i = j - 1 ∨ i = j) : isNaN c = true := by
  have later := gapAt.later
  obtain ⟨x, atGap, gap⟩ := gapAt.gap
  obtain ⟨old, new, left, right, rfl⟩ := Indexed.neighbours here
  rcases about with rfl | rfl
  · rw [Nat.sub_add_cancel later, atGap] at right
    cases right
    exact absorbing.sub _ _ (.inl gap)
  · rw [atGap] at left
    cases left
    exact absorbing.sub _ _ (.inr gap)

include exact in
theorem GapAt.number {i : Nat} {c : α} (here : (changes data)[i]? = some c)
    (before : i ≠ j - 1) (behind : i ≠ j) : ∃ k, c = num k := by
  have later := gapAt.later
  have finite {n : Nat} {x : α} (apart : n ≠ j) (there : data[n]? = some x) : isFinite x = true :=
    gapAt.others x (List.mem_eraseIdx_iff_getElem?.mpr ⟨n, apart, there⟩)
  obtain ⟨old, new, left, right, rfl⟩ := Indexed.neighbours here
  obtain ⟨a, rfl⟩ := (exact.isFinite old).mp (finite behind left)
  obtain ⟨b, rfl⟩ := (exact.isFinite new).mp (finite (by omega) right)
  exact ⟨b - a, exact.sub b a⟩

include exact ordinary absorbing

theorem GapAt.filled_eq {i : Nat} {c : α} (here : (changes data)[i]? = some c) :
    filled c = (if i = j - 1 ∨ i = j then 0 else c) ∧ ∃ k, filled c = num k := by
  by_cases about : i = j - 1 ∨ i = j
  · rw [if_pos about, filled_gap (gapAt.missing absorbing here about)]
    exact ⟨rfl, 0, exact.zero⟩
  · obtain ⟨before, behind⟩ := not_or.mp about
    obtain ⟨k, rfl⟩ := gapAt.number exact here before behind
    rw [if_neg about, filled_number (ordinary.isNaN k)]
    exact ⟨rfl, k, rfl⟩

/-- Passing over what is no number leaves the changes of a series that pauses at the gap. -/
theorem GapAt.map_filled : (changes data).map filled = paused j (changes data) := by
  apply List.ext_getElem?
  intro i
  rw [getElem?_paused, List.getElem?_map]
  cases here : (changes data)[i]? with
  | none => simp only [Option.map_none, ite_self]
  | some c =>
      rw [Option.map_some, (gapAt.filled_eq exact ordinary absorbing here).1, Option.map_some]
      split <;> rfl

/-- Such a series there is, and it is one of numbers. -/
theorem GapAt.exists_flat :
    ∃ xs : List K, xs.length = data.length ∧
      changes (xs.map num) = paused j (changes data) := by
  have numbers : ∃ cs : List K, paused j (changes data) = cs.map num := by
    apply exact.exists_map
    intro c member
    rw [← gapAt.map_filled exact ordinary absorbing] at member
    obtain ⟨d, present, rfl⟩ := List.mem_map.mp member
    obtain ⟨i, here⟩ := List.mem_iff_getElem?.mp present
    exact (exact.isFinite _).mpr (gapAt.filled_eq exact ordinary absorbing here).2
  obtain ⟨cs, known⟩ := numbers
  have count : cs.length + 1 = data.length := by
    have inside := gapAt.inside
    have lengths := congrArg List.length known
    rw [paused, List.length_set, List.length_set, Indexed.length_changes,
      List.length_map] at lengths
    omega
  refine ⟨cs.scanl (· + ·) 0, ?_, ?_⟩
  · rw [List.length_scanl, count]
  · rw [changes_num exact, steps_scanl, known]

end Changes

/-! ## Lost averages -/

section Lost

omit [Field K] [LinearOrder K]

variable (incomparable : Incomparable α)

include absorbing

include incomparable in
theorem addChange_lost {s : Averages α} {c : α} (lost : isNaN s.loss = true ∨ isNaN c = true) :
    isNaN (addChange s c).loss = true := by
  unfold addChange
  split
  · next up =>
    -- what is above zero is a number
    obtain ⟨-, number⟩ := numbers_of_compares incomparable.lt up
    rcases lost with lost | gap
    · exact lost
    · rw [number] at gap
      cases gap
  · exact absorbing.sub _ _ lost

include incomparable in
/-- One change of the seed that is no number leaves no total of the losses. -/
theorem foldl_addChange_lost {s : Averages α} {cs : List α}
    (lost : isNaN s.loss = true ∨ ∃ c ∈ cs, isNaN c = true) :
    isNaN (cs.foldl addChange s).loss = true := by
  -- along the changes: the total is lost already, or a change to come loses it
  induction cs generalizing s with
  | nil =>
      rcases lost with lost | ⟨c, member, -⟩
      · exact lost
      · cases member
  | cons c rest ih =>
      rw [List.foldl_cons]
      rw [List.exists_mem_cons_iff, ← or_assoc] at lost
      exact ih (lost.imp_left (addChange_lost absorbing incomparable))

theorem next_lost {period : Nat} {s : Averages α} (c : α) (lost : isNaN s.loss = true) :
    isNaN (next period s c).loss = true :=
  absorbing.div _ _ (.inl (absorbing.add _ _ (.inl (absorbing.mul _ _ (.inl lost)))))

include incomparable in
theorem value_lost {s : Averages α} (lost : isNaN s.loss = true) : isNaN (value s) = true := by
  have nonzero : eq s.loss 0 = false := incomparable.eq _ _ (.inl lost)
  have quotient := absorbing.div s.gain s.loss (.inr lost)
  rw [value, if_neg (by rw [nonzero]; exact Bool.false_ne_true)]
  exact absorbing.sub _ _ (.inr (absorbing.div _ _ (.inr (absorbing.add _ _ (.inr quotient)))))

include incomparable in
/-- Without an average of the losses there are no values any more. -/
theorem valuesFrom_lost {period : Nat} {s : Averages α} (cs : List α) (lost : isNaN s.loss = true) :
    ∀ v ∈ value s :: valuesFrom period s cs, isNaN v = true := by
  induction cs generalizing s with
  | nil => exact List.forall_mem_singleton.mpr (value_lost absorbing incomparable lost)
  | cons c rest ih =>
      exact List.forall_mem_cons.mpr ⟨value_lost absorbing incomparable lost,
        ih (next_lost absorbing c lost)⟩

end Lost

/-! ## The values about a gap -/

section Values

variable {j period : Nat} {data : List α} (gapAt : GapAt j data)
include absorbing gapAt

include exact ordinary in
/-- Before and behind the seed a gap is a pause. -/
theorem GapAt.values_eq {flat : List α} (length : flat.length = data.length)
    (pause : changes flat = paused j (changes data)) (apart : data.length ≤ period ∨ period < j) :
    values period data = values period flat := by
  by_cases short : data.length ≤ period
  · rw [values_short short, values_short (length ▸ short), length]
  · -- the seed ends before both changes about the gap, and the steps pass over them
    have behind : period < j := apart.resolve_left short
    have seed : (paused j (changes data)).take period = (changes data).take period := by
      rw [paused, List.take_set_of_le (by omega), List.take_set_of_le (by omega)]
    rw [values_long (by omega), values_long (by omega), pause, seed,
      ← gapAt.map_filled exact ordinary absorbing, ← List.map_drop,
      valuesFrom_filled exact ordinary absorbing]

omit [Field K] [LinearOrder K] in
/-- A gap that the seed reaches leaves no value behind it. -/
theorem GapAt.values_lost (incomparable : Incomparable α) (reached : j ≤ period)
    (long : period < data.length) :
    (∀ i, i < period → (values period data)[i]? = some 50) ∧
      ∀ i v, period ≤ i → (values period data)[i]? = some v → isNaN v = true := by
  have later := gapAt.later
  have inside : j - 1 < (changes data).length := by
    rw [Indexed.length_changes]
    omega
  -- the change to the gap is one of the seed
  have here := List.getElem?_eq_getElem inside
  have gap := gapAt.missing absorbing here (.inl rfl)
  have member : (changes data)[j - 1] ∈ (changes data).take period :=
    List.mem_of_getElem? ((List.getElem?_take_of_lt (by omega)).trans here)
  have lost : isNaN (seed period ((changes data).take period)).loss = true :=
    absorbing.div _ _ (.inl (foldl_addChange_lost absorbing incomparable (.inr ⟨_, member, gap⟩)))
  have heads : (List.replicate period (50 : α)).length = period := List.length_replicate
  rw [values_long long]
  constructor
  · intro i early
    rw [List.getElem?_append_left (by omega), List.getElem?_replicate, if_pos early]
  · intro i v late found
    rw [List.getElem?_append_right (by omega)] at found
    exact valuesFrom_lost absorbing incomparable _ lost v (List.mem_of_getElem? found)

end Values

end Exact

/-- One missing price, at an index `j` that is not the first. There is a series of numbers that has
the same changes, but does not move to `j` nor from it, and its values are between 0 and 100. Where
the seed is complete before `j`, or is never complete, the missing price is such a pause: the values
are the same. A seed that reaches to `j` loses the losses instead, and no value from `period` on is
a number. -/
theorem missing_price {K : Type} [Field K] [LinearOrder K] [IsStrictOrderedRing K] {num : K → α}
    (exact : Exact num) (ordinary : Ordinary num) (discerning : Discerning num)
    (absorbing : Absorbing α) (incomparable : Incomparable α) {period j : Nat}
    (positive : 0 < period) {data : List α} (gapAt : GapAt j data) :
    (∃ flat : List α, (∀ x ∈ flat, isFinite x = true) ∧ flat.length = data.length ∧
      changes flat = ((changes data).set (j - 1) 0).set j 0 ∧
      (∀ v ∈ values period flat, within 0 v 100 = true) ∧
      (data.length ≤ period ∨ period < j → values period data = values period flat)) ∧
    (j ≤ period → period < data.length →
      (∀ i, i < period → (values period data)[i]? = some 50) ∧
      ∀ i v, period ≤ i → (values period data)[i]? = some v → isNaN v = true) := by
  obtain ⟨xs, length, pause⟩ := gapAt.exists_flat exact ordinary absorbing
  have flatLength : (xs.map num).length = data.length := by rw [List.length_map, length]
  have range : ∀ v ∈ values period (xs.map num), within 0 v 100 = true := by
    rw [values_num exact ordinary discerning positive]
    exact (indexes_num exact discerning positive xs).range
  refine ⟨⟨xs.map num, ?_, flatLength, pause, range, ?_⟩, ?_⟩
  · rw [List.forall_mem_map]
    intro x _
    exact exact.finite x
  · exact gapAt.values_eq exact ordinary absorbing flatLength pause
  · exact gapAt.values_lost absorbing incomparable

/-- A price is missing behind the seed of two changes, and the index stays at 200/3 for two bars. -/
theorem missing_price_ratio :
    let data : List Ratio := [.of 10, .of 12, .of 11, nan, .of 13, .of 14]
    Exact Ratio.of ∧ Ordinary Ratio.of ∧ Discerning Ratio.of ∧ Absorbing Ratio ∧
      Incomparable Ratio ∧ 0 < 2 ∧ GapAt 3 data ∧ 2 < 3 ∧
      values 2 data =
        [.of 50, .of 50, .of (200 / 3), .of (200 / 3), .of (200 / 3), .of (1000 / 11)] ∧
      ∃ flat : List Ratio, changes flat = [.of 2, .of (-1), 0, 0, .of 1] ∧
        (∀ v ∈ values 2 flat, within 0 v 100 = true) ∧ values 2 data = values 2 flat := by
  intro data
  have gapAt : GapAt 3 data := ⟨by decide, ⟨nan, rfl, rfl⟩, by decide⟩
  obtain ⟨⟨flat, -, -, pause, range, same⟩, -⟩ := missing_price Ratio.exact Ratio.ordinary
    Ratio.discerning Ratio.absorbing Ratio.incomparable two_pos gapAt
  exact ⟨Ratio.exact, Ratio.ordinary, Ratio.discerning, Ratio.absorbing, Ratio.incomparable,
    two_pos, gapAt, by decide, by decide +kernel, flat, pause.trans (by decide +kernel), range,
    same (.inr (by decide))⟩

/-- A price that is missing in the seed of two changes leaves no index from there on, where a pause
leaves two. -/
theorem missing_price_spreads :
    let data : List Float := [1, nan, 2, 3]
    let flat : List Float := [1, 1, 1, 2]
    changes flat = ((changes data).set 0 0).set 1 0 ∧ values 2 flat = [50, 50, 50, 100] ∧
      ∃ first second : Float, values 2 data = [50, 50, first, second] ∧
        isNaN first = true ∧ isNaN second = true := by
  refine ⟨?_, ?_, _, _, rfl, ?_, ?_⟩
  all_goals decide +kernel

end Chartist.Rsi
