import Chartist.Proofs.Local.Deque
import Chartist.Proofs.Order.Binary64

/-!
# Running extremes are those of each window

The running extremes keep a deque, the pointwise ones reduce each window in four lanes; on numbers
both answer the highest and the lowest value of the window (`extremes_agree`).

On the side of the deque, what is left of a window falls from the oldest value to the newest and
covers every value of the window (`Standing`), so the oldest one is the highest. On the side of the
lanes, every step joins two values, so the answer is at most just what all values are at most
(`joins_reduce`). Both arguments are made once, for places in any linear order, and used again for
the order turned round.
-/

namespace Chartist.Window

open Scalar

variable {α : Type} [Scalar α] {L : Type} [LinearOrder L] {place : α → L}

/-! ## The deque -/

/-- What stands of a window, newest first: values of the window that fall towards the newest, and
reach as high as each value of the window does. -/
structure Standing (place : α → L) (window kept : List α) : Prop where
  member : ∀ x ∈ kept, x ∈ window
  falling : kept.Pairwise fun newer older => place newer < place older
  covered : ∀ x ∈ window, ∃ y ∈ kept, place x ≤ place y

variable {keep : α → α → Bool} {window kept : List α}

omit [Scalar α] in
/-- Of values that fall towards the newest, a new value leaves those above it. -/
theorem mem_dropWhile_falling (falling : kept.Pairwise fun newer older => place newer < place older)
    {new : α} (keeps : ∀ old ∈ kept, keep old new = decide (place new < place old)) (x : α) :
    x ∈ kept.dropWhile (fun old => !keep old new) ↔ x ∈ kept ∧ place new < place x := by
  induction kept with
  | nil => simp
  | cons first rest ih =>
      obtain ⟨here, later⟩ := List.forall_mem_cons.mp keeps
      obtain ⟨above, fallingRest⟩ := List.pairwise_cons.mp falling
      by_cases stays : place new < place first
      · have all : ∀ y ∈ first :: rest, place new < place y := by
          intro y member
          rcases List.mem_cons.mp member with rfl | member
          · exact stays
          · exact stays.trans (above y member)
        rw [List.dropWhile_cons_of_neg (by simp [here, stays])]
        constructor
        · intro member
          exact ⟨member, all x member⟩
        · intro both
          exact both.1
      · rw [List.dropWhile_cons_of_pos (by simp [here, stays]), ih fallingRest later]
        constructor
        · rintro ⟨member, higher⟩
          exact ⟨List.mem_cons_of_mem _ member, higher⟩
        · rintro ⟨member, higher⟩
          rcases List.mem_cons.mp member with rfl | member
          · exact absurd higher stays
          · exact ⟨member, higher⟩

omit [Scalar α] in
/-- A value that comes drops those that it reaches, and stands below the others. -/
theorem Standing.step (standing : Standing place window kept) {new : α}
    (keeps : ∀ old ∈ kept, keep old new = decide (place new < place old)) :
    Standing place (window ++ [new]) (new :: kept.dropWhile fun old => !keep old new) := by
  have remains := mem_dropWhile_falling standing.falling keeps
  refine ⟨?_, ?_, ?_⟩
  · intro x member
    rcases List.mem_cons.mp member with rfl | member
    · exact List.mem_append_right _ (List.mem_singleton.mpr rfl)
    · exact List.mem_append_left _ (standing.member x ((remains x).mp member).1)
  · refine List.pairwise_cons.mpr ⟨?_, ?_⟩
    · intro x member
      exact ((remains x).mp member).2
    · exact standing.falling.sublist (List.dropWhile_sublist _)
  · intro x member
    rcases List.mem_append.mp member with member | member
    · obtain ⟨y, stood, reaches⟩ := standing.covered x member
      by_cases above : place new < place y
      · exact ⟨y, List.mem_cons_of_mem _ ((remains y).mpr ⟨stood, above⟩), reaches⟩
      · exact ⟨new, List.mem_cons_self .., reaches.trans (not_lt.mp above)⟩
    · rw [List.mem_singleton.mp member]
      exact ⟨new, List.mem_cons_self .., le_rfl⟩

omit [Scalar α] in
/-- The survivors of a window stand. -/
theorem standing_survivors
    (keeps : ∀ old ∈ window, ∀ new ∈ window, keep old new = decide (place new < place old)) :
    Standing place window (survivors keep window) := by
  have run (rest seen kept : List α) (standing : Standing place seen kept)
      (keeps : ∀ old ∈ seen ++ rest, ∀ new ∈ seen ++ rest,
        keep old new = decide (place new < place old)) :
      Standing place (seen ++ rest)
        (rest.foldl (fun kept new => new :: kept.dropWhile fun old => !keep old new) kept) := by
    induction rest generalizing seen kept with
    | nil => rwa [List.append_nil]
    | cons new rest ih =>
        have compares : ∀ old ∈ kept, keep old new = decide (place new < place old) := by
          intro old member
          refine keeps old (List.mem_append_left _ (standing.member old member)) new ?_
          exact List.mem_append_right _ (List.mem_cons_self ..)
        have next := ih (seen ++ [new]) _ (standing.step compares)
        rw [List.append_assoc, List.singleton_append] at next
        exact next keeps
  have start : Standing place [] ([] : List α) := by
    refine ⟨?_, List.Pairwise.nil, ?_⟩
    · intro x member
      exact absurd member List.not_mem_nil
    · intro x member
      exact absurd member List.not_mem_nil
  exact run window [] [] start keeps

/-- The oldest survivor of a window is one of its values, and no value is above it. -/
theorem Standing.oldest_highest (standing : Standing place window (survivors keep window))
    (some : window ≠ []) :
    oldest keep window ∈ window ∧ ∀ x ∈ window, place x ≤ place (oldest keep window) := by
  have nonempty : survivors keep window ≠ [] := by
    intro none
    obtain ⟨x, member⟩ := List.exists_mem_of_ne_nil _ some
    obtain ⟨y, stood, -⟩ := standing.covered x member
    rw [none] at stood
    exact absurd stood List.not_mem_nil
  obtain ⟨newer, last, split⟩ := (List.eq_nil_or_concat' _).resolve_left nonempty
  have isLast : oldest keep window = last := by
    rw [oldest, split, List.getLast?_concat, Option.getD_some]
  rw [isLast]
  refine ⟨standing.member last (by simp [split]), ?_⟩
  intro x member
  obtain ⟨y, stood, reaches⟩ := standing.covered x member
  refine reaches.trans ?_
  have falling := standing.falling
  rw [split] at stood falling
  rcases List.mem_append.mp stood with before | here
  · exact ((List.pairwise_append.mp falling).2.2 y before last (List.mem_singleton.mpr rfl)).le
  · rw [List.mem_singleton.mp here]

/-! ## The lanes -/

/-- A property of all four running values. -/
def Lanes.All (p : α → Prop) (lanes : Lanes α) : Prop :=
  p lanes.first ∧ p lanes.second ∧ p lanes.third ∧ p lanes.fourth

/-- All values of a list, reduced in four lanes and then one by one. -/
def reduce (lane pick : α → α → α) (seed : α) (xs : List α) : α :=
  let (acc, rest) := Lanes.fold lane (Lanes.splat seed) xs
  rest.foldl pick (pick (pick (pick acc.first acc.second) acc.third) acc.fourth)

omit [Scalar α] in
/-- Fewer than four elements are left over. -/
theorem Lanes.fold_of_short (lane : α → α → α) (lanes : Lanes α) (rest : List α)
    (short : ∀ a b c d more, rest ≠ a :: b :: c :: d :: more) :
    Lanes.fold lane lanes rest = (lanes, rest) := by
  rcases rest with _ | ⟨a, _ | ⟨b, _ | ⟨c, _ | ⟨d, more⟩⟩⟩⟩
  case cons.cons.cons.cons => exact absurd rfl (short a b c d more)
  all_goals rfl

omit [Scalar α] in
theorem joins_lanes {p : α → Prop} {pick : α → α → α} (joins : JoinsOn p place pick)
    {lanes : Lanes α} (running : lanes.All p) :
    let answer := pick (pick (pick lanes.first lanes.second) lanes.third) lanes.fourth
    p answer ∧ ∀ u, place answer ≤ u ↔ lanes.All fun x => place x ≤ u := by
  obtain ⟨first, second, third, fourth⟩ := running
  obtain ⟨two, joinedTwo⟩ := joins _ _ first second
  obtain ⟨three, joinedThree⟩ := joins _ _ two third
  obtain ⟨four, joinedFour⟩ := joins _ _ three fourth
  refine ⟨four, ?_⟩
  intro u
  rw [joinedFour, joinedThree, joinedTwo, Lanes.All, and_assoc, and_assoc]

omit [Scalar α] in
theorem joins_foldl {p : α → Prop} {pick : α → α → α} (joins : JoinsOn p place pick) {start : α}
    (holds : p start) {xs : List α} (each : ∀ x ∈ xs, p x) :
    p (xs.foldl pick start) ∧
      ∀ u, place (xs.foldl pick start) ≤ u ↔ place start ≤ u ∧ ∀ x ∈ xs, place x ≤ u := by
  induction xs generalizing start with
  | nil => simp [holds]
  | cons x rest ih =>
      obtain ⟨here, later⟩ := List.forall_mem_cons.mp each
      obtain ⟨next, joined⟩ := joins start x holds here
      obtain ⟨answer, bound⟩ := ih next later
      refine ⟨answer, ?_⟩
      intro u
      rw [List.foldl_cons, bound, joined, List.forall_mem_cons, and_assoc]

omit [Scalar α] in
/-- Taking off groups of four joins each of them to its lane. -/
theorem joins_fold {p : α → Prop} {lane : α → α → α} (joins : JoinsOn p place lane)
    (lanes : Lanes α) (xs : List α) (running : lanes.All p) (each : ∀ x ∈ xs, p x) :
    let result := Lanes.fold lane lanes xs
    result.1.All p ∧ (∀ x ∈ result.2, p x) ∧
      ∀ u, ((result.1.All fun x => place x ≤ u) ∧ ∀ x ∈ result.2, place x ≤ u) ↔
        (lanes.All fun x => place x ≤ u) ∧ ∀ x ∈ xs, place x ≤ u := by
  induction lanes, xs using Lanes.fold.induct lane with
  | case1 lanes a b c d rest ih =>
      simp only [List.forall_mem_cons] at each
      obtain ⟨holdsA, holdsB, holdsC, holdsD, later⟩ := each
      obtain ⟨first, second, third, fourth⟩ := running
      obtain ⟨nextA, joinedA⟩ := joins lanes.first a first holdsA
      obtain ⟨nextB, joinedB⟩ := joins lanes.second b second holdsB
      obtain ⟨nextC, joinedC⟩ := joins lanes.third c third holdsC
      obtain ⟨nextD, joinedD⟩ := joins lanes.fourth d fourth holdsD
      obtain ⟨lanesEnd, restEnd, bound⟩ := ih ⟨nextA, nextB, nextC, nextD⟩ later
      refine ⟨lanesEnd, restEnd, ?_⟩
      intro u
      refine (bound u).trans ?_
      simp only [Lanes.All, joinedA, joinedB, joinedC, joinedD, List.forall_mem_cons]
      tauto
  | case2 lanes rest short =>
      rw [Lanes.fold_of_short lane lanes rest short]
      exact ⟨running, each, fun u => Iff.rfl⟩

omit [Scalar α] in
/-- The answer of a reduction is at most just what the seed and all values are at most. -/
theorem joins_reduce {p : α → Prop} {lane pick : α → α → α} (joinsLane : JoinsOn p place lane)
    (joinsPick : JoinsOn p place pick) {seed : α} (holds : p seed) {xs : List α}
    (each : ∀ x ∈ xs, p x) :
    p (reduce lane pick seed xs) ∧
      ∀ u, place (reduce lane pick seed xs) ≤ u ↔ place seed ≤ u ∧ ∀ x ∈ xs, place x ≤ u := by
  obtain ⟨running, left, bound⟩ :=
    joins_fold joinsLane (Lanes.splat seed) xs ⟨holds, holds, holds, holds⟩ each
  obtain ⟨combined, joined⟩ := joins_lanes joinsPick running
  obtain ⟨answer, reduced⟩ := joins_foldl joinsPick combined left
  refine ⟨answer, ?_⟩
  intro u
  refine (reduced u).trans ?_
  rw [joined, bound]
  simp only [Lanes.All, Lanes.splat, and_self]

/-- The oldest survivor of a window is a value that no other one is above, and a reduction from a
seed below every number finds its place. -/
theorem reduce_window {lane pick : α → α → α} (joinsLane : Joins place lane)
    (joinsPick : Joins place pick) {seed : α} (number : isNaN seed = false)
    (below : ∀ x, isNaN x = false → place seed ≤ place x) (some : window ≠ [])
    (numbers : ∀ x ∈ window, isNaN x = false)
    (keeps : ∀ old ∈ window, ∀ new ∈ window, keep old new = decide (place new < place old)) :
    let high := oldest keep window
    let found := reduce lane pick seed window
    high ∈ window ∧ (∀ x ∈ window, place x ≤ place high) ∧
      isNaN found = false ∧ place found = place high := by
  intro high found
  obtain ⟨member, highest⟩ := (standing_survivors keeps).oldest_highest some
  obtain ⟨answer, bound⟩ := joins_reduce joinsLane joinsPick number numbers
  refine ⟨member, highest, answer, ?_⟩
  apply le_antisymm
  · exact (bound _).mpr ⟨below _ (numbers _ member), highest⟩
  · exact ((bound _).mp le_rfl).2 _ member

/-! ## Highest and lowest values -/

section Ordered

variable (ordered : Ordered place)
include ordered

/-- The oldest survivor and the lanes find the highest value of a window of numbers. -/
theorem highest_window (some : window ≠ []) (numbers : ∀ x ∈ window, isNaN x = false) :
    let high := oldest (fun old new => lt new old) window
    eq high (highest window) = true ∧ IsHighest high window ∧
      IsHighest (highest window) window := by
  have keeps : ∀ old ∈ window, ∀ new ∈ window, lt new old = decide (place new < place old) := by
    intro old member new member'
    exact ordered.lt new old (numbers new member') (numbers old member)
  have lanes : highest window = reduce laneMax maxNum (-infinity) window := by
    rw [highest, extent, List.isEmpty_eq_false_iff.mpr some]
    rfl
  obtain ⟨member, bound, number, same⟩ := reduce_window ordered.joins_laneMax ordered.joins_maxNum
    ordered.negInfinity ordered.negInfinity_le some numbers keeps
  rw [← lanes] at number same
  refine ⟨?_, ?_, ?_⟩
  · rw [ordered.eq _ _ (numbers _ member) number, decide_eq_true_eq, same]
  · exact ordered.isHighest (numbers _ member) numbers ⟨_, member, rfl⟩ bound
  · rw [← same] at bound
    exact ordered.isHighest number numbers ⟨_, member, same⟩ bound

/-- The same in the order turned round. -/
theorem lowest_window (some : window ≠ []) (numbers : ∀ x ∈ window, isNaN x = false) :
    let low := oldest (fun old new => lt old new) window
    eq low (lowest window) = true ∧ IsLowest low window ∧ IsLowest (lowest window) window := by
  let down (x : α) := OrderDual.toDual (place x)
  have keeps : ∀ old ∈ window, ∀ new ∈ window, lt old new = decide (down new < down old) := by
    intro old member new member'
    exact ordered.lt old new (numbers old member) (numbers new member')
  have lanes : lowest window = reduce laneMin minNum infinity window := by
    rw [lowest, extent, List.isEmpty_eq_false_iff.mpr some]
    rfl
  obtain ⟨member, bound, number, same⟩ := reduce_window ordered.joins_laneMin ordered.joins_minNum
    ordered.infinity ordered.le_infinity some numbers keeps
  rw [← lanes] at number same
  have samePlace : place (lowest window) = place (oldest lt window) := same
  refine ⟨?_, ?_, ?_⟩
  · rw [ordered.eq _ _ (numbers _ member) number, decide_eq_true_eq, samePlace]
  · exact ordered.isLowest (numbers _ member) numbers ⟨_, member, rfl⟩ bound
  · refine ordered.isLowest number numbers ⟨_, member, samePlace⟩ ?_
    rw [samePlace]
    exact bound

/-- At every index of a list of numbers, the running extremes and those of the window on its own
are the highest and the lowest of the last `length` values, as far as there are so many. -/
theorem extremes_agree {data : List α} (numbers : ∀ x ∈ data, isNaN x = false) {length : Nat}
    (positive : 0 < length) :
    (rollingHighest data length).length = data.length ∧
    (rollingLowest data length).length = data.length ∧
    ∀ i, i < data.length →
      let window := (data.take (i + 1)).drop (i + 1 - length)
      ∃ high low,
        (rollingHighest data length)[i]? = some high ∧
        (rollingLowest data length)[i]? = some low ∧
        eq high (highest (trailing data i length)) = true ∧
        eq low (lowest (trailing data i length)) = true ∧
        IsHighest high window ∧ IsHighest (highest (trailing data i length)) window ∧
        IsLowest low window ∧ IsLowest (lowest (trailing data i length)) window := by
  have highs :
      rollingHighest data length = rolling (oldest fun old new => lt new old) data length :=
    extremesFrom_eq_rolling _ positive data
  have lows :
      rollingLowest data length = rolling (oldest fun old new => lt old new) data length :=
    extremesFrom_eq_rolling _ positive data
  refine ⟨?_, ?_, ?_⟩
  · rw [highs, rolling, List.length_map, List.length_range]
  · rw [lows, rolling, List.length_map, List.length_range]
  · intro i inside window
    have isWindow : trailing data i length = window := trailing_eq_drop data i length
    have some : trailing data i length ≠ [] := by
      rw [← List.length_pos_iff, length_trailing inside]
      unfold span
      omega
    have numbersHere : ∀ x ∈ trailing data i length, isNaN x = false := by
      intro x member
      exact numbers x (List.mem_of_mem_drop (List.mem_of_mem_take member))
    obtain ⟨sameHigh, runningHigh, pointHigh⟩ := highest_window ordered some numbersHere
    obtain ⟨sameLow, runningLow, pointLow⟩ := lowest_window ordered some numbersHere
    rw [← isWindow]
    refine ⟨_, _, ?_, ?_, sameHigh, sameLow, runningHigh, pointHigh, runningLow, pointLow⟩
    · rw [highs, rolling, List.getElem?_map, List.getElem?_range inside]
      rfl
    · rw [lows, rolling, List.getElem?_map, List.getElem?_range inside]
      rfl

end Ordered

/-- A rise to infinity, both zeros and a fall, in windows of two. -/
theorem extremes_agree_binary64 :
    let data : List Float := [1, infinity, -0.0, 0.0, -2.5]
    (Ordered fun x : Float => Binary64.place x.toModel.unpack) ∧
    (∀ x ∈ data, isNaN x = false) ∧ 0 < 2 ∧
    rollingHighest data 2 = [1, infinity, infinity, 0.0, 0.0] ∧
    rollingLowest data 2 = [1, 1, -0.0, 0.0, -2.5] ∧
    (∃ high, (rollingHighest data 2)[3]? = some high ∧
      eq high (highest (trailing data 3 2)) = true ∧ IsHighest high [-0.0, 0.0]) := by
  intro data
  have numbers : ∀ x ∈ data, isNaN x = false := by decide
  obtain ⟨-, -, agree⟩ := extremes_agree Binary64.ordered numbers Nat.two_pos
  obtain ⟨high, low, runs, -, same, -, isHighest, -⟩ := agree 3 (by decide)
  refine ⟨Binary64.ordered, numbers, Nat.two_pos, by decide +kernel, by decide +kernel, ?_⟩
  exact ⟨high, runs, same, isHighest⟩

end Chartist.Window
