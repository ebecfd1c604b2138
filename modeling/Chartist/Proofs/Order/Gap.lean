import Chartist.Proofs.Order.Extreme
import Mathlib.Data.List.DropRight
import Mathlib.Order.WithBot

/-!
# Extremes of windows with gaps

A value that is not a number is a gap. The lanes pass over gaps, so the extremes of a window on its
own are those of its numbers (`highest_numbers`, `lowest_numbers`). In the deque a gap beats every
value before it and is beaten by the next one, so a running extreme starts anew behind each gap
(`oldest_sinceGap`): it is the extreme of the numbers since the last gap, and bounds the other
numbers of the window just where both extremes agree (`extremes_since_gap`).
-/

namespace Chartist.Window

open Scalar

variable {α : Type} [Scalar α]

/-- The numbers among the values. -/
def numbers (xs : List α) : List α := xs.filter fun x => !isNaN x

/-- The values behind the last gap. -/
def sinceGap (xs : List α) : List α := xs.rtakeWhile fun x => !isNaN x

/-- The extremes of the values behind the last gap of a window, beside those that the window has on
its own. -/
structure StartedAnew (window : List α) (high low : α) : Prop where
  highestSince : IsHighest high (sinceGap window)
  highestAlone : IsHighest (highest window) (numbers window)
  highestBounds :
    (∀ y ∈ numbers window, le y high = true) ↔ eq high (highest window) = true
  lowestSince : IsLowest low (sinceGap window)
  lowestAlone : IsLowest (lowest window) (numbers window)
  lowestBounds :
    (∀ y ∈ numbers window, le low y = true) ↔ eq low (lowest window) = true

theorem mem_numbers {xs : List α} {x : α} : x ∈ numbers xs ↔ x ∈ xs ∧ isNaN x = false := by
  rw [numbers, List.mem_filter, Bool.not_eq_true']

theorem number_of_mem_sinceGap {xs : List α} {x : α} (member : x ∈ sinceGap xs) :
    isNaN x = false := by
  have passes := List.mem_rtakeWhile_imp member
  rwa [Bool.not_eq_true'] at passes

theorem sinceGap_subset (xs : List α) : sinceGap xs ⊆ numbers xs := by
  intro x member
  exact mem_numbers.mpr ⟨(List.rtakeWhile_suffix _ _).subset member, number_of_mem_sinceGap member⟩

theorem sinceGap_concat_number {x : α} (number : isNaN x = false) (before : List α) :
    sinceGap (before ++ [x]) = sinceGap before ++ [x] :=
  List.rtakeWhile_concat_pos _ _ _ (by simp [number])

theorem sinceGap_concat_gap {x : α} (gap : isNaN x = true) (before : List α) :
    sinceGap (before ++ [x]) = [] :=
  List.rtakeWhile_concat_neg _ _ _ (by simp [gap])

/-- A list without gaps is all behind the last gap; any other one has a gap in front of that. -/
theorem split_sinceGap (xs : List α) :
    sinceGap xs = xs ∨ ∃ before gap, isNaN gap = true ∧ before ++ gap :: sinceGap xs = xs := by
  induction xs using List.reverseRecOn with
  | nil => exact .inl rfl
  | append_singleton before x ih =>
      by_cases missing : isNaN x = true
      · right
        rw [sinceGap_concat_gap missing]
        exact ⟨before, x, missing, rfl⟩
      · rw [sinceGap_concat_number (Bool.eq_false_iff.mpr missing)]
        rcases ih with whole | ⟨older, gap, isGap, split⟩
        · exact .inl (by rw [whole])
        · right
          refine ⟨older, gap, isGap, ?_⟩
          rw [← List.cons_append, ← List.append_assoc, split]

/-! ## The deque -/

section Deque

variable {keep : α → α → Bool}
  (fails : ∀ old new : α, isNaN old = true ∨ isNaN new = true → keep old new = false)
include fails

/-- A gap leaves nothing before it. -/
theorem survivors_gap {gap : α} (isGap : isNaN gap = true) (before : List α) :
    survivors keep (before ++ [gap]) = [gap] := by
  have none : ∀ kept : List α, kept.dropWhile (fun old => !keep old gap) = [] := by
    intro kept
    rw [List.dropWhile_eq_nil_iff]
    intro old _
    rw [fails old gap (.inr isGap)]
    rfl
  rw [survivors, List.foldl_append, List.foldl_cons, List.foldl_nil, none]

/-- The first value behind a gap drops it, and finds nothing else. -/
theorem survivors_behind_gap {gap : α} (isGap : isNaN gap = true) (before : List α) (next : α)
    (rest : List α) :
    survivors keep (before ++ gap :: next :: rest) = survivors keep (next :: rest) := by
  have anew : survivors keep (before ++ [gap, next]) = [next] := by
    have dropped : [gap].dropWhile (fun old => !keep old next) = [] := by
      rw [List.dropWhile_cons_of_pos (by rw [fails gap next (.inl isGap)]; rfl), List.dropWhile_nil]
    have behind := survivors_gap fails isGap before
    rw [survivors, List.foldl_append] at behind ⊢
    rw [List.foldl_cons, List.foldl_nil] at behind
    rw [List.foldl_cons, behind, List.foldl_cons, List.foldl_nil, dropped]
  have split : before ++ gap :: next :: rest = before ++ [gap, next] ++ rest := by
    rw [List.append_assoc]
    rfl
  rw [split, survivors, List.foldl_append, ← survivors, anew]
  rfl

theorem oldest_gap {gap : α} (isGap : isNaN gap = true) (before : List α) :
    oldest keep (before ++ [gap]) = gap := by
  rw [oldest, survivors_gap fails isGap]
  rfl

/-- A window that ends with a number has its oldest survivor behind the last gap. -/
theorem oldest_sinceGap {window : List α} (some : sinceGap window ≠ []) :
    oldest keep window = oldest keep (sinceGap window) := by
  rcases split_sinceGap window with whole | ⟨before, gap, isGap, split⟩
  · rw [whole]
  · obtain ⟨next, rest, behind⟩ := List.exists_cons_of_ne_nil some
    rw [behind] at split ⊢
    rw [← split, oldest, oldest, survivors_behind_gap fails isGap]

end Deque

/-! ## The lanes -/

variable {L : Type} [LinearOrder L] {place : α → L}

/-- The place of a number; a gap stands below all of them. -/
def height (place : α → L) (x : α) : WithBot L := if isNaN x then ⊥ else place x

omit [LinearOrder L] in
theorem height_number {x : α} (number : isNaN x = false) : height place x = place x := by
  rw [height, number]
  rfl

omit [LinearOrder L] in
theorem height_gap {x : α} (gap : isNaN x = true) : height place x = ⊥ := if_pos gap

/-- The one of two values that is no gap, or else the later one if it is to be preferred. -/
def pass (prefers : α → α → Bool) (a b : α) : α :=
  if isNaN a then b else if prefers a b then b else a

/-- What joins numbers, and never prefers a gap, joins all values by their heights. -/
theorem joins_pass {prefers : α → α → Bool} (joins : Joins place (pass prefers))
    (fails : ∀ a b, isNaN b = true → prefers a b = false) :
    JoinsOn (fun _ => True) (height place) (pass prefers) := by
  intro a b _ _
  refine ⟨trivial, ?_⟩
  intro u
  by_cases gapA : isNaN a = true
  · rw [pass, if_pos gapA, height_gap gapA]
    simp
  · have numberA := Bool.eq_false_iff.mpr gapA
    by_cases gapB : isNaN b = true
    · rw [pass, if_neg gapA, fails a b gapB, height_gap gapB]
      simp
    · have numberB := Bool.eq_false_iff.mpr gapB
      obtain ⟨number, joined⟩ := joins a b numberA numberB
      rw [height_number number, height_number numberA, height_number numberB]
      cases u with
      | bot => simp
      | coe v => simp only [WithBot.coe_le_coe, joined]

/-- Where there is a number, a reduction that passes over gaps finds the highest one. -/
theorem reduce_numbers {lane pick : α → α → α} {window : List α} {seed high : α}
    (joinsLane : JoinsOn (fun _ => True) (height place) lane)
    (joinsPick : JoinsOn (fun _ => True) (height place) pick) (number : isNaN seed = false)
    (below : ∀ x, isNaN x = false → place seed ≤ place x) (member : high ∈ numbers window)
    (highest : ∀ x ∈ numbers window, place x ≤ place high) :
    isNaN (reduce lane pick seed window) = false ∧
      place (reduce lane pick seed window) = place high := by
  obtain ⟨inside, numberHigh⟩ := mem_numbers.mp member
  have bound : ∀ u, height place (reduce lane pick seed window) ≤ u ↔
      height place seed ≤ u ∧ ∀ x ∈ window, height place x ≤ u :=
    (joins_reduce joinsLane joinsPick trivial fun _ _ => trivial).2
  have same : height place (reduce lane pick seed window) = place high := by
    apply le_antisymm
    · refine (bound _).mpr ⟨?_, ?_⟩
      · rw [height_number number, WithBot.coe_le_coe]
        exact below high numberHigh
      · intro x present
        by_cases gap : isNaN x = true
        · rw [height_gap gap]
          exact bot_le
        · have numberX := Bool.eq_false_iff.mpr gap
          rw [height_number numberX, WithBot.coe_le_coe]
          exact highest x (mem_numbers.mpr ⟨present, numberX⟩)
    · rw [← height_number numberHigh]
      exact ((bound _).mp le_rfl).2 high inside
  by_cases gap : isNaN (reduce lane pick seed window) = true
  · rw [height_gap gap] at same
    exact absurd same WithBot.bot_ne_coe
  · have found := Bool.eq_false_iff.mpr gap
    rw [height_number found, WithBot.coe_inj] at same
    exact ⟨found, same⟩

/-! ## Highest and lowest numbers -/

omit [Scalar α] in
/-- The highest of some values bounds all values just if it is as high as the highest of all. -/
theorem bounds_iff_same {some all : List α} {high top : α} (sub : some ⊆ all)
    (attained : ∃ y ∈ some, place high = place y) (attainedTop : ∃ y ∈ all, place top = place y)
    (bound : ∀ y ∈ all, place y ≤ place top) :
    (∀ y ∈ all, place y ≤ place high) ↔ place high = place top := by
  constructor
  · intro covers
    obtain ⟨y, member, same⟩ := attained
    obtain ⟨z, memberTop, sameTop⟩ := attainedTop
    apply le_antisymm
    · rw [same]
      exact bound y (sub member)
    · rw [sameTop]
      exact covers z memberTop
  · intro same y member
    rw [same]
    exact bound y member

section Ordered

variable (ordered : Ordered place) (incomparable : Incomparable α)
include ordered incomparable

theorem passing_maxNum : JoinsOn (fun _ => True) (height place) (maxNum : α → α → α) :=
  joins_pass ordered.joins_maxNum fun a b gap => incomparable.lt a b (.inr gap)

theorem passing_minNum :
    JoinsOn (fun _ => True) (height fun x => OrderDual.toDual (place x))
      (minNum : α → α → α) :=
  joins_pass ordered.joins_minNum fun a b gap => incomparable.lt b a (.inl gap)

/-- What is highest stands in the last place of the values. -/
theorem places_of_isHighest {x : α} {xs : List α} (isHighest : IsHighest x xs) :
    isNaN x = false ∧ (∃ y ∈ xs, place x = place y) ∧ ∀ y ∈ xs, place y ≤ place x := by
  obtain ⟨y, member, same⟩ := isHighest.attained
  obtain ⟨numberX, numberY⟩ := numbers_of_compares incomparable.eq same
  refine ⟨numberX, ⟨y, member, ?_⟩, ?_⟩
  · rwa [ordered.eq x y numberX numberY, decide_eq_true_eq] at same
  · intro z present
    have atMost := isHighest.bound z present
    obtain ⟨numberZ, -⟩ := numbers_of_compares incomparable.le atMost
    rwa [ordered.le z x numberZ numberX, decide_eq_true_eq] at atMost

theorem places_of_isLowest {x : α} {xs : List α} (isLowest : IsLowest x xs) :
    isNaN x = false ∧ (∃ y ∈ xs, place x = place y) ∧ ∀ y ∈ xs, place x ≤ place y := by
  obtain ⟨y, member, same⟩ := isLowest.attained
  obtain ⟨numberX, numberY⟩ := numbers_of_compares incomparable.eq same
  refine ⟨numberX, ⟨y, member, ?_⟩, ?_⟩
  · rwa [ordered.eq x y numberX numberY, decide_eq_true_eq] at same
  · intro z present
    have atMost := isLowest.bound z present
    obtain ⟨-, numberZ⟩ := numbers_of_compares incomparable.le atMost
    rwa [ordered.le x z numberX numberZ, decide_eq_true_eq] at atMost

variable {window : List α}

/-- On its own, a window has the highest of its numbers, wherever its gaps are. -/
theorem highest_numbers (some : numbers window ≠ []) :
    IsHighest (highest window) (numbers window) := by
  have number : ∀ x ∈ numbers window, isNaN x = false := fun x member => (mem_numbers.mp member).2
  obtain ⟨-, isHighest, -⟩ := highest_window ordered some number
  obtain ⟨numberHigh, ⟨high, member, same⟩, bound⟩ :=
    places_of_isHighest ordered incomparable isHighest
  rw [same] at bound
  have lanes : highest window = reduce (fun a b => maxNum b a) maxNum (-infinity) window := by
    have nonempty : window ≠ [] := by
      rintro rfl
      exact some rfl
    rw [highest, extent, List.isEmpty_eq_false_iff.mpr nonempty]
    rfl
  have joins := passing_maxNum ordered incomparable
  obtain ⟨found, samePlace⟩ := reduce_numbers joins.flip joins ordered.negInfinity
    ordered.negInfinity_le member bound
  rw [lanes]
  refine ordered.isHighest found number ⟨high, member, samePlace⟩ ?_
  rw [samePlace]
  exact bound

theorem lowest_numbers (some : numbers window ≠ []) :
    IsLowest (lowest window) (numbers window) := by
  have number : ∀ x ∈ numbers window, isNaN x = false := fun x member => (mem_numbers.mp member).2
  obtain ⟨-, isLowest, -⟩ := lowest_window ordered some number
  obtain ⟨numberLow, ⟨low, member, same⟩, bound⟩ :=
    places_of_isLowest ordered incomparable isLowest
  rw [same] at bound
  have lanes : lowest window = reduce (fun a b => minNum b a) minNum infinity window := by
    have nonempty : window ≠ [] := by
      rintro rfl
      exact some rfl
    rw [lowest, extent, List.isEmpty_eq_false_iff.mpr nonempty]
    rfl
  have joins := passing_minNum ordered incomparable
  obtain ⟨found, sameDual⟩ := reduce_numbers joins.flip joins ordered.infinity
    ordered.le_infinity member bound
  have samePlace := OrderDual.toDual_inj.mp sameDual
  rw [lanes]
  refine ordered.isLowest found number ⟨low, member, samePlace⟩ ?_
  rw [samePlace]
  exact bound

/-- In a window that ends with a number, the running highest is the highest since the last gap. -/
theorem highest_sinceGap (some : sinceGap window ≠ []) :
    let high := oldest (fun old new => lt new old) window
    IsHighest high (sinceGap window) ∧ IsHighest (highest window) (numbers window) ∧
      ((∀ y ∈ numbers window, le y high = true) ↔ eq high (highest window) = true) := by
  intro high
  have since : IsHighest high (sinceGap window) := by
    have anew : high = oldest (fun old new => lt new old) (sinceGap window) :=
      oldest_sinceGap (fun old new missing => incomparable.lt new old missing.symm) some
    obtain ⟨-, isHighest, -⟩ := highest_window ordered some fun _ => number_of_mem_sinceGap
    rw [anew]
    exact isHighest
  have alone : IsHighest (highest window) (numbers window) :=
    highest_numbers ordered incomparable fun none =>
      some (List.subset_nil.mp (none ▸ sinceGap_subset window))
  obtain ⟨numberHigh, attained, -⟩ := places_of_isHighest ordered incomparable since
  obtain ⟨numberTop, attainedTop, bound⟩ := places_of_isHighest ordered incomparable alone
  refine ⟨since, alone, ?_⟩
  rw [ordered.eq _ _ numberHigh numberTop, decide_eq_true_eq,
    ← bounds_iff_same (sinceGap_subset window) attained attainedTop bound]
  refine forall₂_congr fun y member => ?_
  rw [ordered.le _ _ (mem_numbers.mp member).2 numberHigh, decide_eq_true_eq]

theorem lowest_sinceGap (some : sinceGap window ≠ []) :
    let low := oldest (fun old new => lt old new) window
    IsLowest low (sinceGap window) ∧ IsLowest (lowest window) (numbers window) ∧
      ((∀ y ∈ numbers window, le low y = true) ↔ eq low (lowest window) = true) := by
  intro low
  have since : IsLowest low (sinceGap window) := by
    have anew : low = oldest (fun old new => lt old new) (sinceGap window) :=
      oldest_sinceGap incomparable.lt some
    obtain ⟨-, isLowest, -⟩ := lowest_window ordered some fun _ => number_of_mem_sinceGap
    rw [anew]
    exact isLowest
  have alone : IsLowest (lowest window) (numbers window) :=
    lowest_numbers ordered incomparable fun none =>
      some (List.subset_nil.mp (none ▸ sinceGap_subset window))
  obtain ⟨numberLow, attained, -⟩ := places_of_isLowest ordered incomparable since
  obtain ⟨numberTop, attainedTop, bound⟩ := places_of_isLowest ordered incomparable alone
  -- the same with the order turned round
  have turned : (∀ y ∈ numbers window,
      OrderDual.toDual (place y) ≤ OrderDual.toDual (place low)) ↔
        OrderDual.toDual (place low) = OrderDual.toDual (place (lowest window)) :=
    bounds_iff_same (sinceGap_subset window) attained attainedTop bound
  refine ⟨since, alone, ?_⟩
  rw [ordered.eq _ _ numberLow numberTop, decide_eq_true_eq, ← OrderDual.toDual_inj, ← turned]
  refine forall₂_congr fun y member => ?_
  rw [ordered.le _ _ numberLow (mem_numbers.mp member).2, decide_eq_true_eq]
  rfl

omit ordered incomparable in
/-- A running extreme is the oldest survivor of its window. -/
theorem extremesFrom_getElem? (keep : α → α → Bool) {data : List α} {length i : Nat}
    (positive : 0 < length) (inside : i < data.length) :
    (extremesFrom keep length [] 0 data)[i]? = some (oldest keep (trailing data i length)) := by
  rw [extremesFrom_eq_rolling keep positive, rolling, List.getElem?_map,
    List.getElem?_range inside]
  rfl

/-- A gap starts the running extremes anew. At a gap they are the gap itself. At a number they are
the highest and the lowest of the values behind the last gap of the window, while the window on its
own has those of all its numbers; and a running extreme bounds all of these only where it agrees
with the extreme of the window on its own. -/
theorem extremes_since_gap (data : List α) {length : Nat} (positive : 0 < length) {i : Nat} {x : α}
    (here : data[i]? = some x) :
    ∃ high low, (rollingHighest data length)[i]? = some high ∧
      (rollingLowest data length)[i]? = some low ∧
      (isNaN x = true → high = x ∧ low = x) ∧
      (isNaN x = false → StartedAnew (trailing data i length) high low) := by
  have inside : i < data.length := (List.getElem?_eq_some_iff.mp here).1
  have ends : (trailing data i length).getLast? = some x := by
    rw [getLast?_trailing inside positive, here]
  obtain ⟨before, split⟩ := List.getLast?_eq_some_iff.mp ends
  refine ⟨_, _, extremesFrom_getElem? _ positive inside, extremesFrom_getElem? _ positive inside,
    ?_, ?_⟩
  · intro gap
    rw [split]
    exact ⟨oldest_gap (fun old new missing => incomparable.lt new old missing.symm) gap before,
      oldest_gap incomparable.lt gap before⟩
  · intro number
    have some : sinceGap (trailing data i length) ≠ [] := by
      rw [split, sinceGap_concat_number number]
      exact List.concat_ne_nil _ _
    obtain ⟨sinceHigh, aloneHigh, boundsHigh⟩ := highest_sinceGap ordered incomparable some
    obtain ⟨sinceLow, aloneLow, boundsLow⟩ := lowest_sinceGap ordered incomparable some
    exact ⟨sinceHigh, aloneHigh, boundsHigh, sinceLow, aloneLow, boundsLow⟩

end Ordered

/-- Behind a gap, a running highest has lost the 7 before it, and the 5 that ends the window is the
highest of the two values since. -/
theorem extremes_since_gap_binary64 :
    let data : List Float := [4, 7, nan, 3, 5]
    (Ordered fun x : Float => Binary64.place x.toModel.unpack) ∧ Incomparable Float ∧ 0 < 4 ∧
    data[4]? = some 5 ∧ trailing data 4 4 = data.drop 1 ∧
    ∃ high, (rollingHighest data 4)[4]? = some high ∧ IsHighest high [3, 5] ∧
      IsHighest (highest (data.drop 1)) [7, 3, 5] := by
  intro data
  have here : data[4]? = some 5 := rfl
  obtain ⟨high, low, runs, -, -, behind⟩ :=
    extremes_since_gap Binary64.ordered Binary64.incomparable data (Nat.succ_pos 3) here
  have anew := behind (by decide)
  have suffix : sinceGap (trailing data 4 4) = [3, 5] := by decide +kernel
  have rest : numbers (trailing data 4 4) = [7, 3, 5] := by decide +kernel
  exact ⟨Binary64.ordered, Binary64.incomparable, Nat.succ_pos 3, here, rfl, high, runs,
    suffix ▸ anew.highestSince, rest ▸ anew.highestAlone⟩

/-- A gap hides a higher value that is still in the window: of 5, a gap and 3, the running highest
is 3, and the window on its own has 5. -/
theorem gap_hides_highest :
    ∃ (data : List Float) (high : Float),
      data[2]? = some 3 ∧ isNaN (3 : Float) = false ∧
      (rollingHighest data 3)[2]? = some high ∧ (5 : Float) ∈ (data.take 3).drop (3 - 3) ∧
      isNaN (5 : Float) = false ∧ le 5 high = false ∧
      le 5 (highest (trailing data 2 3)) = true := by
  refine ⟨[5, nan, 3], 3, rfl, ?_, ?_, List.mem_cons_self .., ?_, ?_, ?_⟩
  all_goals decide +kernel

end Chartist.Window
