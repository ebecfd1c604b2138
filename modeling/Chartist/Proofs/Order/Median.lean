import Chartist.Proofs.Exact.Basic
import Chartist.Proofs.Extended
import Chartist.Proofs.Local.Basic
import Chartist.Proofs.Order.Bits
import Chartist.Window.Kernel

/-!
# The median stands in the middle

A moving median is an order statistic of its window. The values below and above the middle of a
window put in order are equally many (`InMiddle`), and what stands in the middle is one value, or
two whose mean is the median (`inMiddle_median`, `exists_inMiddle_median`). That at least half of
the window lies on either side (`Halves`) is counted there. A median of an odd number of values
follows every increasing map of them (`median_map`, `eq_median_map`), since the map leaves the
middle where it is.

What is said of one value in the middle holds in any arithmetic, that of binary64 numbers included;
exact arithmetic is asked for where a mean is formed.
-/

namespace Chartist.Window

open Scalar

variable {α : Type} [Scalar α] {L : Type} [LinearOrder L] {place : α → L}

/-- At least half of the values are at most `m`, and at least half are at least `m`. -/
structure Halves (window : List α) (m : α) : Prop where
  below : window.length ≤ 2 * window.countP fun x => le x m
  above : window.length ≤ 2 * window.countP fun x => le m x

/-- The window in ascending order holds these values in its middle. -/
def InMiddle (inner window : List α) : Prop :=
  ∃ below above, (below ++ inner ++ above).Perm window ∧ Ascending (below ++ inner ++ above) ∧
    below.length = above.length

/-- A map to numbers that keeps the numeric order of the values, and their equality. -/
structure Increases (f : α → α) (data : List α) : Prop where
  number : ∀ a ∈ data, isNaN (f a) = false
  lt : ∀ a ∈ data, ∀ b ∈ data, Scalar.lt a b = true → Scalar.lt (f a) (f b) = true
  eq : ∀ a ∈ data, ∀ b ∈ data, Scalar.eq a b = true → Scalar.eq (f a) (f b) = true

/-! ## The middle of a list -/

theorem getElem?_middle (sorted : List α) (odd : sorted.length % 2 = 1) :
    sorted[sorted.length / 2]? = some (middle sorted) := by
  have inside : sorted.length / 2 < sorted.length := by omega
  rw [middle, if_pos odd, List.getElem?_eq_getElem inside, Option.getD_some]

/-- A list of odd length is parted by its middle value. -/
theorem eq_append_middle {sorted : List α} (odd : sorted.length % 2 = 1) :
    ∃ below above, sorted = below ++ [middle sorted] ++ above ∧ below.length = above.length := by
  obtain ⟨inside, known⟩ := List.getElem?_eq_some_iff.mp (getElem?_middle sorted odd)
  refine ⟨sorted.take (sorted.length / 2), sorted.drop (sorted.length / 2 + 1), ?_, ?_⟩
  · rw [List.append_assoc, List.singleton_append, ← known, ← List.drop_eq_getElem_cons inside,
      List.take_append_drop]
  · rw [List.length_take, List.length_drop]
    omega

/-- A list of even length is parted by the two values of which the middle is the mean. -/
theorem eq_append_pair {sorted : List α} (nonempty : sorted ≠ [])
    (even : sorted.length % 2 = 0) :
    ∃ below a b above, sorted = below ++ [a, b] ++ above ∧ below.length = above.length ∧
      middle sorted = (a + b) / 2 := by
  have positive := List.length_pos_iff.mpr nonempty
  obtain ⟨k, half⟩ : ∃ k, sorted.length / 2 = k + 1 := ⟨sorted.length / 2 - 1, by omega⟩
  have first : k < sorted.length := by omega
  have second : k + 1 < sorted.length := by omega
  refine ⟨sorted.take k, sorted[k], sorted[k + 1], sorted.drop (k + 2), ?_, ?_, ?_⟩
  · rw [List.append_assoc, List.cons_append, List.singleton_append,
      ← List.drop_eq_getElem_cons second, ← List.drop_eq_getElem_cons first,
      List.take_append_drop]
  · rw [List.length_take, List.length_drop]
    omega
  · rw [middle, if_neg (by omega), half, Nat.add_sub_cancel, List.getElem?_eq_getElem first,
      List.getElem?_eq_getElem second, Option.getD_some, Option.getD_some]

/-! ## The median -/

theorem median_eq_of_perm (sorting : Sorting place) {xs ys : List α} (same : xs.Perm ys) :
    median xs = median ys :=
  congrArg middle (sorting.mergeSort_eq_of_perm same)

section Numbers

variable (ordered : Ordered place) (sorting : Sorting place) {xs : List α}
  (numbers : ∀ x ∈ xs, isNaN x = false)
include ordered sorting numbers

theorem inMiddle_median (odd : xs.length % 2 = 1) : InMiddle [median xs] xs := by
  have perm := List.mergeSort_perm xs before
  obtain ⟨below, above, parted, same⟩ := eq_append_middle (perm.length_eq ▸ odd)
  have ascending := sorting.ascending ordered numbers
  rw [parted] at perm ascending
  exact ⟨below, above, perm, ascending, same⟩

theorem exists_inMiddle_median (nonempty : xs ≠ []) (even : xs.length % 2 = 0) :
    ∃ a b, InMiddle [a, b] xs ∧ median xs = (a + b) / 2 := by
  have perm := List.mergeSort_perm xs before
  have sortedNonempty : xs.mergeSort before ≠ [] := by
    rwa [← List.length_pos_iff, perm.length_eq, List.length_pos_iff]
  obtain ⟨below, a, b, above, parted, same, mean⟩ :=
    eq_append_pair sortedNonempty (perm.length_eq ▸ even)
  have ascending := sorting.ascending ordered numbers
  rw [parted] at perm ascending
  exact ⟨a, b, ⟨below, above, perm, ascending, same⟩, mean⟩

end Numbers

/-! ## Half of the window on either side -/

omit [Scalar α] in
theorem half_le_countP {p : α → Bool} {part rest window : List α}
    (perm : (part ++ rest).Perm window) (each : ∀ x ∈ part, p x = true)
    (long : rest.length ≤ part.length) : window.length ≤ 2 * window.countP p := by
  rw [← perm.length_eq, ← perm.countP_eq, List.length_append, List.countP_append,
    List.countP_eq_length.mpr each]
  omega

namespace InMiddle

variable {window : List α}

theorem mem {inner : List α} {x : α} (inMiddle : InMiddle inner window) (member : x ∈ inner) :
    x ∈ window := by
  obtain ⟨below, above, perm, -, -⟩ := inMiddle
  rw [← perm.mem_iff, List.mem_append, List.mem_append]
  exact .inl (.inr member)

/-- The values on either side of the middle are equally many, and in order with those in it. -/
theorem sides {inner : List α} (inMiddle : InMiddle inner window) :
    ∃ below above, (below ++ inner ++ above).Perm window ∧ below.length = above.length ∧
      (∀ x ∈ below, ∀ y ∈ inner, le x y = true) ∧ (∀ x ∈ inner, ∀ y ∈ above, le x y = true) ∧
      Ascending inner := by
  obtain ⟨below, above, perm, ascending, same⟩ := inMiddle
  obtain ⟨lower, -, upper⟩ := List.pairwise_append.mp ascending
  obtain ⟨-, within, upTo⟩ := List.pairwise_append.mp lower
  refine ⟨below, above, perm, same, upTo, ?_, within⟩
  intro x member
  exact upper x (List.mem_append_right below member)

variable (ordered : Ordered place) (numbers : ∀ x ∈ window, isNaN x = false)
include ordered numbers

theorem halves {m : α} (inMiddle : InMiddle [m] window) : Halves window m := by
  have number := numbers m (inMiddle.mem List.mem_cons_self)
  obtain ⟨below, above, perm, same, upTo, upper, -⟩ := inMiddle.sides
  have self : le m m = true := (ordered.le_iff number number).mpr le_rfl
  constructor
  · refine half_le_countP perm ?_ (by simp [same])
    intro x member
    rcases List.mem_append.mp member with low | here
    · exact upTo x low m List.mem_cons_self
    · rwa [List.mem_singleton.mp here]
  · have turned : (m :: above ++ below).Perm window :=
      List.perm_append_comm.trans (by simpa using perm)
    refine half_le_countP turned ?_ (by simp [same])
    intro x member
    rcases List.mem_cons.mp member with rfl | high
    · exact self
    · exact upper m List.mem_cons_self x high

/-- A number between the two values in the middle halves the window. -/
theorem halves_of_within {a b m : α} (inMiddle : InMiddle [a, b] window)
    (number : isNaN m = false) (between : within a m b = true) : Halves window m := by
  obtain ⟨fromA, toB⟩ := Bool.and_eq_true_iff.mp between
  have numberA := numbers a (inMiddle.mem (by simp))
  have numberB := numbers b (inMiddle.mem (by simp))
  obtain ⟨below, above, perm, same, upTo, upper, -⟩ := inMiddle.sides
  have known (x : α) (member : x ∈ below ++ [a, b] ++ above) : isNaN x = false :=
    numbers x (perm.mem_iff.mp member)
  -- each half of the window holds one of the two values in the middle
  have parted : (below ++ [a] ++ b :: above).Perm window := by simpa using perm
  constructor
  · refine half_le_countP parted ?_ (by simp [same])
    intro x member
    rcases List.mem_append.mp member with low | here
    · exact ordered.le_of_le_of_le (known x (by simp [low])) numberA number
        (upTo x low a List.mem_cons_self) fromA
    · rwa [List.mem_singleton.mp here]
  · refine half_le_countP (List.perm_append_comm.trans parted) ?_ (by simp [same])
    intro x member
    rcases List.mem_cons.mp member with rfl | high
    · exact toB
    · exact ordered.le_of_le_of_le number numberB (known x (by simp [high])) toB
        (upper b (by simp) x high)

/-- An exact mean of two numbers halves the window in whose middle they stand. -/
theorem halves_of_numbers {K : Type} [Field K] [LinearOrder K] [IsStrictOrderedRing K]
    {num : K → α} (exact : Exact num) (ordinary : Ordinary num) {x y : K}
    (inMiddle : InMiddle [num x, num y] window) : Halves window (num ((x + y) / 2)) := by
  refine inMiddle.halves_of_within ordered numbers (ordinary.isNaN _) ?_
  obtain ⟨-, -, -, -, -, -, pair⟩ := inMiddle.sides
  have le := List.rel_of_pairwise_cons pair List.mem_cons_self
  rw [exact.le, decide_eq_true_eq] at le
  rw [exact.within]
  constructor <;> linarith

end InMiddle

/-! ## Increasing maps -/

theorem Increases.le (ordered : Ordered place) {f : α → α} {data : List α} {a b : α}
    (increases : Increases f data) (numbers : ∀ x ∈ data, isNaN x = false) (memberA : a ∈ data)
    (memberB : b ∈ data) (le : le a b = true) : Scalar.le (f a) (f b) = true := by
  have numberA := numbers a memberA
  have numberB := numbers b memberB
  have numberA' := increases.number a memberA
  have numberB' := increases.number b memberB
  rw [ordered.le_iff numberA numberB] at le
  rw [ordered.le_iff numberA' numberB']
  rcases le.lt_or_eq with less | same
  · have above := increases.lt a memberA b memberB ((ordered.lt_iff numberA numberB).mpr less)
    exact ((ordered.lt_iff numberA' numberB').mp above).le
  · have equal := increases.eq a memberA b memberB ((ordered.eq_iff numberA numberB).mpr same)
    exact ((ordered.eq_iff numberA' numberB').mp equal).le

theorem middle_map {f : α → α} {sorted : List α} (odd : sorted.length % 2 = 1) :
    middle (sorted.map f) = f (middle sorted) := by
  have mapped := getElem?_middle (sorted.map f) (by rwa [List.length_map])
  rw [List.length_map, List.getElem?_map, getElem?_middle sorted odd, Option.map_some] at mapped
  exact (Option.some.inj mapped).symm

/-- Of an odd number of values, the median follows a map that keeps the order of sorting. -/
theorem median_map {f : α → α} {xs : List α} (odd : xs.length % 2 = 1)
    (keeps : ∀ a ∈ xs, ∀ b ∈ xs, before a b = before (f a) (f b)) :
    median (xs.map f) = f (median xs) := by
  rw [median, ← List.map_mergeSort keeps, middle_map (by rwa [List.length_mergeSort]), median]

/-- Of an odd number of numbers, the median follows an increasing map, up to numeric equality. -/
theorem place_median_map (ordered : Ordered place) (sorting : Sorting place) {f : α → α}
    {xs : List α} (numbers : ∀ x ∈ xs, isNaN x = false) (odd : xs.length % 2 = 1)
    (increases : Increases f xs) : place (median (xs.map f)) = place (f (median xs)) := by
  have perm : ((xs.map f).mergeSort before).Perm ((xs.mergeSort before).map f) :=
    (List.mergeSort_perm _ _).trans ((List.mergeSort_perm xs before).map f).symm
  have mapped : ∀ x ∈ xs.map f, isNaN x = false := List.forall_mem_map.mpr increases.number
  have followed : Ascending ((xs.mergeSort before).map f) := by
    rw [Ascending, List.pairwise_map]
    refine (sorting.ascending ordered numbers).imp_of_mem ?_
    intro a b memberA memberB
    exact increases.le ordered numbers (List.mem_mergeSort.mp memberA)
      (List.mem_mergeSort.mp memberB)
  have places := ordered.map_place_of_perm (fun x member => mapped x (List.mem_mergeSort.mp member))
    perm (sorting.ascending ordered mapped) followed
  have here := congrArg (·[xs.length / 2]?) places
  have first := getElem?_middle ((xs.map f).mergeSort before) (by simpa using odd)
  have second := getElem?_middle (xs.mergeSort before) (by simpa using odd)
  rw [List.length_mergeSort, List.length_map] at first
  rw [List.length_mergeSort] at second
  simp only [List.getElem?_map, first, second, Option.map_some, Option.some_inj] at here
  exact here

theorem eq_median_map (ordered : Ordered place) (sorting : Sorting place) {f : α → α}
    {xs : List α} (numbers : ∀ x ∈ xs, isNaN x = false) (odd : xs.length % 2 = 1)
    (increases : Increases f xs) : Scalar.eq (median (xs.map f)) (f (median xs)) = true := by
  have mapped : ∀ x ∈ xs.map f, isNaN x = false := List.forall_mem_map.mpr increases.number
  have first := (inMiddle_median ordered sorting mapped (by rwa [List.length_map])).mem
    List.mem_cons_self
  have second := (inMiddle_median ordered sorting numbers odd).mem List.mem_cons_self
  rw [ordered.eq_iff (mapped _ first) (increases.number _ second)]
  exact place_median_map ordered sorting numbers odd increases

/-! ## Moving medians -/

/-- A moving median depends on which values the window holds, and not on their order. Of an odd
number of values it is the one in the middle, which halves the window and follows every increasing
map of the data. Of an even number it is the mean of the two in the middle, and halves the window
where it lies between them, as an exact mean does. -/
theorem movingMedian_orderStatistic (ordered : Ordered place) (sorting : Sorting place)
    {data : List α} (numbers : ∀ x ∈ data, isNaN x = false) {length i : Nat}
    (positive : 0 < length) (inside : i < data.length) :
    ∃ m, (movingMedian data length)[i]? = some m ∧
      (∀ other length' j, j < other.length →
        (trailing other j length').Perm (trailing data i length) →
          (movingMedian other length')[j]? = some m) ∧
      ((trailing data i length).length % 2 = 1 →
        m ∈ trailing data i length ∧ InMiddle [m] (trailing data i length) ∧
        Halves (trailing data i length) m ∧
        (∀ f : α → α, Increases f data → ∃ m', (movingMedian (data.map f) length)[i]? = some m' ∧
          Scalar.eq m' (f m) = true) ∧
        ∀ f : α → α, (∀ a ∈ data, ∀ b ∈ data, before a b = before (f a) (f b)) →
          (movingMedian (data.map f) length)[i]? = some (f m)) ∧
      ((trailing data i length).length % 2 = 0 →
        ∃ a b, InMiddle [a, b] (trailing data i length) ∧ m = (a + b) / 2 ∧
          (isNaN m = false → within a m b = true → Halves (trailing data i length) m) ∧
          ∀ (K : Type) [Field K] [LinearOrder K] [IsStrictOrderedRing K] (num : K → α),
            Exact num → Ordinary num → isFinite a = true → isFinite b = true →
              ∃ x y, a = num x ∧ b = num y ∧ m = num ((x + y) / 2) ∧
                Halves (trailing data i length) m) := by
  have fromData := trailing_subset data i length
  have known : ∀ x ∈ trailing data i length, isNaN x = false := fun x member =>
    numbers x (fromData member)
  refine ⟨median (trailing data i length), getElem?_rolling median inside length, ?_, ?_, ?_⟩
  · intro other length' j insideOther same
    rw [movingMedian, getElem?_rolling median insideOther, median_eq_of_perm sorting same]
  · intro odd
    have inMiddle := inMiddle_median ordered sorting known odd
    have mapped (f : α → α) : (movingMedian (data.map f) length)[i]? =
        some (median ((trailing data i length).map f)) := by
      rw [movingMedian, getElem?_rolling median (by rwa [List.length_map]), trailing_map]
    have member := inMiddle.mem List.mem_cons_self
    refine ⟨member, inMiddle, inMiddle.halves ordered known, ?_, ?_⟩
    · intro f increases
      refine ⟨_, mapped f, ?_⟩
      have onWindow : Increases f (trailing data i length) := {
        number := fun a inA => increases.number a (fromData inA)
        lt := fun a inA b inB => increases.lt a (fromData inA) b (fromData inB)
        eq := fun a inA b inB => increases.eq a (fromData inA) b (fromData inB) }
      exact eq_median_map ordered sorting known odd onWindow
    · intro f keeps
      rw [mapped f, median_map odd]
      exact fun a inA b inB => keeps a (fromData inA) b (fromData inB)
  · intro even
    obtain ⟨a, b, inMiddle, mean⟩ :=
      exists_inMiddle_median ordered sorting known (trailing_ne_nil inside positive) even
    refine ⟨a, b, inMiddle, mean, inMiddle.halves_of_within ordered known, ?_⟩
    intro K _ _ _ num exact ordinary finiteA finiteB
    obtain ⟨x, rfl⟩ := (exact.isFinite a).mp finiteA
    obtain ⟨y, rfl⟩ := (exact.isFinite b).mp finiteB
    have exactMean : (num x + num y) / 2 = num ((x + y) / 2) := by
      rw [exact.add, exact.natLit, exact.div _ _ (by norm_num), Nat.cast_two]
    refine ⟨x, y, rfl, rfl, mean.trans exactMean, ?_⟩
    rw [mean, exactMean]
    exact inMiddle.halves_of_numbers ordered known exact ordinary

/-- Of three binary64 numbers, an infinity among them, the median is one; of four rational numbers it
is the exact mean of two. -/
theorem movingMedian_orderStatistic_mixed :
    let prices : List Float := [2.5, infinity, 1]
    let levels : List Extended := [.number 3, .number 1, .number 2, .number 1]
    (Sorting fun x : Float => Binary64.place x.toModel.unpack) ∧ Sorting Extended.place ∧
    (∀ x ∈ prices, isNaN x = false) ∧ (∀ x ∈ levels, isNaN x = false) ∧ 0 < 3 ∧ 0 < 4 ∧
    (∃ m, (movingMedian prices 3)[2]? = some m ∧ m ∈ prices ∧ Halves prices m) ∧
    ∃ m x y, (movingMedian levels 4)[3]? = some m ∧ InMiddle [.number x, .number y] levels ∧
      m = .number ((x + y) / 2) ∧ Halves levels m := by
  intro prices levels
  have pricesNumbers : ∀ x ∈ prices, isNaN x = false := by decide
  have levelsNumbers : ∀ x ∈ levels, isNaN x = false := by decide
  obtain ⟨p, knownP, -, odd, -⟩ := movingMedian_orderStatistic Binary64.ordered Binary64.sorting
    pricesNumbers (Nat.succ_pos 2) (show 2 < prices.length by decide)
  obtain ⟨member, -, halvesP, -, -⟩ := odd (by decide)
  obtain ⟨m, known, -, -, even⟩ := movingMedian_orderStatistic Extended.ordered Extended.sorting
    levelsNumbers (Nat.succ_pos 3) (show 3 < levels.length by decide)
  obtain ⟨a, b, inMiddle, -, -, exactMean⟩ := even (by decide)
  have finite : ∀ x ∈ levels, isFinite x = true := by decide
  obtain ⟨x, y, rfl, rfl, mean, halves⟩ := exactMean ℚ .number Extended.exact Extended.ordinary
    (finite a (inMiddle.mem List.mem_cons_self)) (finite b (inMiddle.mem (by simp)))
  exact ⟨Binary64.sorting, Extended.sorting, pricesNumbers, levelsNumbers, Nat.succ_pos 2,
    Nat.succ_pos 3, ⟨p, knownP, member, halvesP⟩, m, x, y, known, inMiddle, mean, halves⟩

end Chartist.Window
