import Chartist.Proofs.Causal.Window
import Chartist.Proofs.Local.Deque
import Chartist.Window.Word
import Mathlib.Data.List.Induction

/-!
# Running extremes past the last word

As long as the sum of the front's index and the length is a word, a step on words is the exact step
(`expire_eq`), and so is a run (`extremesFrom_append`). The front has an index for which it is not
only where a window is longer than the data, so that no value has ever left it; the front then
changes only when a value drops all that came before it (`near_pushAll`). From the first such value
so far on, a checked build has no answer, and in an unchecked one every new value leaves at once and
stands for its window (`extremesFrom_nil`). So the answers on words are known for all lengths
(`extremesFrom_trap`, `extremesFrom_wrap`), and are exact wherever length and data together stay
within 2^64 (`firstOverrun?_eq_none`).
-/

namespace Chartist.Window

variable {α : Type} {keep : α → α → Bool}

/-- The value at an index drops all candidates before it. -/
def standsAlone (keep : α → α → Bool) (data : List α) (j : Nat) : Bool :=
  (survivors keep (data.take (j + 1))).length == 1

/-- The value at an index stands alone, and no word holds the sum of its index and the length. -/
def overrunsAt (keep : α → α → Bool) (length : Nat) (data : List α) (j : Nat) : Bool :=
  decide (wordCount ≤ j + length) && standsAlone keep data j

/-- The first index at the front of the deque whose sum with the length no word holds. -/
def firstOverrun? (keep : α → α → Bool) (length : Nat) (data : List α) : Option Nat :=
  (List.range data.length).find? (overrunsAt keep length data)

/-- The extremes up to the first such index, and the values themselves from there on. -/
def overrunExtremes (keep : α → α → Bool) (length : Nat) (data : List α) : List α :=
  let extremes := extremesFrom keep length [] 0 data
  match firstOverrun? keep length data with
  | none => extremes
  | some j => extremes.take j ++ data.drop j

/-- The second value drops the first one, and its sum with the greatest length is no word. -/
example : overrunExtremes (fun old new : Nat => decide (new < old)) (wordCount - 1) [1, 5, 3] =
    [1, 5, 3] := by decide

/-- No sum leaves the words while length and data together stay within them. -/
theorem firstOverrun?_eq_none {length : Nat} {data : List α}
    (fits : data.length + length ≤ wordCount) : firstOverrun? keep length data = none := by
  rw [firstOverrun?, List.find?_range_eq_none]
  intro j before
  have near : ¬ wordCount ≤ j + length := by omega
  rw [overrunsAt, decide_eq_false near, Bool.false_and, Bool.not_false]

theorem overrunsAt_iff {length : Nat} {data : List α} {j : Nat} :
    overrunsAt keep length data j = true ↔
      wordCount ≤ j + length ∧ standsAlone keep data j = true := by
  rw [overrunsAt, Bool.and_eq_true, decide_eq_true_eq]

theorem standsAlone_append (before : List α) (value : α) (after : List α) :
    standsAlone keep (before ++ value :: after) before.length = true ↔
      (survivors keep (before ++ [value])).length = 1 := by
  have taken : (before ++ value :: after).take (before.length + 1) = before ++ [value] := by
    rw [List.take_append, List.take_of_length_le (Nat.le_succ _), Nat.add_sub_cancel_left,
      List.take_succ_cons, List.take_zero]
  rw [standsAlone, taken, beq_iff_eq]

/-- At the first index that is too far a value stands alone, and at none before it that is far. -/
theorem split_of_firstOverrun? {length : Nat} {data : List α} {j : Nat}
    (first : firstOverrun? keep length data = some j) :
    ∃ xs value rest, data = xs ++ value :: rest ∧ xs.length = j ∧ wordCount ≤ j + length ∧
      (survivors keep (xs ++ [value])).length = 1 ∧
      ∀ k < j, overrunsAt keep length data k = false := by
  rw [firstOverrun?, List.find?_range_eq_some] at first
  obtain ⟨here, inside, earlier⟩ := first
  rw [overrunsAt_iff] at here
  rw [List.mem_range] at inside
  have split : data = data.take j ++ data[j] :: data.drop (j + 1) := by
    rw [← List.drop_eq_getElem_cons inside, List.take_append_drop]
  have before : (data.take j).length = j := by
    rw [List.length_take, Nat.min_eq_left (Nat.le_of_lt inside)]
  have alone := here.2
  rw [standsAlone, beq_iff_eq, List.take_succ_eq_append_getElem inside] at alone
  refine ⟨_, _, _, split, before, here.1, alone, fun k smaller => ?_⟩
  have clear := earlier k smaller
  rwa [Bool.not_eq_true'] at clear

namespace Deque

/-! ## Indices of candidates -/

theorem lt_of_mem_pushAll {index : Nat} {xs : List α} {q : Deque α}
    (before : ∀ c ∈ q, c.1 < index) :
    ∀ c ∈ pushAll keep q index xs, c.1 < index + xs.length := by
  induction xs generalizing q index with
  | nil => exact before
  | cons x rest ih =>
      have pushed : ∀ c ∈ q.push keep index x, c.1 < index + 1 := by
        intro c member
        rcases List.mem_cons.mp member with rfl | member
        · exact Nat.lt_succ_self index
        · exact Nat.lt_succ_of_lt (before c ((List.dropWhile_sublist _).mem member))
      intro c member
      have := ih pushed c member
      rw [List.length_cons]
      omega

/-- Nothing has left a window that is as long as what has been seen. -/
theorem ofEnd_of_le {length : Nat} {seen : List α} (wide : seen.length ≤ length) :
    ofEnd keep length seen = pushAll keep [] 0 seen := by
  rw [ofEnd, Nat.sub_eq_zero_of_le wide, List.drop_zero]

/-- The candidates when one more value has come, before the front is looked at. -/
def arrived (keep : α → α → Bool) (length : Nat) (seen : List α) (value : α) : Deque α :=
  (ofEnd keep length seen).push keep seen.length value

theorem arrived_of_le {length : Nat} {seen : List α} {value : α} (wide : seen.length ≤ length) :
    arrived keep length seen value = pushAll keep [] 0 (seen ++ [value]) := by
  rw [arrived, ofEnd_of_le wide, pushAll_append, Nat.zero_add]
  rfl

/-- A value that stands alone is the only candidate. -/
theorem arrived_alone {length : Nat} {seen : List α} {value : α} (wide : seen.length ≤ length)
    (alone : (survivors keep (seen ++ [value])).length = 1) :
    arrived keep length seen value = [(seen.length, value)] := by
  rw [← map_snd_pushAll keep 0, List.length_map, ← arrived_of_le wide] at alone
  obtain ⟨c, single⟩ := List.length_eq_one_iff.mp alone
  have head : (arrived keep length seen value).head? = some (seen.length, value) := rfl
  rw [single, List.head?_cons, Option.some.injEq] at head
  rw [single, head]

/-- The front stays where a new value leaves a candidate. -/
theorem front?_push {q rest : Deque α} {index : Nat} {value : α} {c : Nat × α}
    (left : (q.dropWhile fun old => !keep old.2 value) = c :: rest) :
    (q.push keep index value).front? = q.front? := by
  have pushed : q.push keep index value = (index, value) :: c :: rest := congrArg _ left
  have parts := List.takeWhile_append_dropWhile (p := fun old => !keep old.2 value) (l := q)
  rw [left] at parts
  unfold front?
  rw [pushed, ← parts, List.getLast?_cons_cons,
    List.getLast?_append_of_ne_nil _ (List.cons_ne_nil _ _)]

/-! ## Near fronts -/

/-- The sum of the index at the front and the length is a word. -/
def Near (length : Nat) (q : Deque α) : Prop := ∀ c, q.front? = some c → c.1 + length < wordCount

theorem near_of_mem {length : Nat} {q : Deque α} (small : ∀ c ∈ q, c.1 + length < wordCount) :
    Near length q :=
  fun c front => small c (List.mem_of_getLast? front)

/-- The candidates that all values leave have a near front, if a value that dropped all that came
before it had an index that is near. -/
theorem near_pushAll {length : Nat} {seen : List α}
    (calm : ∀ before value after, seen = before ++ value :: after →
      wordCount ≤ before.length + length → (survivors keep (before ++ [value])).length ≠ 1) :
    Near length (pushAll keep [] 0 seen) := by
  induction seen using List.reverseRecOn with
  | nil =>
      intro c front
      cases front
  | append_singleton seen x ih =>
      have pushed : pushAll keep [] 0 (seen ++ [x]) =
          (pushAll keep [] 0 seen).push keep seen.length x := by
        rw [pushAll_append, Nat.zero_add]
        rfl
      intro c front
      cases left : (pushAll keep [] 0 seen).dropWhile fun old => !keep old.2 x with
      | nil =>
          -- the new value is the front, and so its index has to be near
          have single : pushAll keep [] 0 (seen ++ [x]) = [(seen.length, x)] :=
            pushed.trans (congrArg _ left)
          have alone : (survivors keep (seen ++ [x])).length = 1 := by
            rw [← map_snd_pushAll keep 0, List.length_map, single, List.length_singleton]
          rw [single] at front
          cases front
          exact Nat.lt_of_not_le fun far => calm seen x [] rfl far alone
      | cons d rest =>
          rw [pushed, front?_push left] at front
          refine ih (fun before value after split => ?_) c front
          refine calm before value (after ++ [x]) ?_
          rw [split, List.append_assoc, List.cons_append]

/-- Up to the first index that is too far, the fronts are near. -/
theorem near_arrived {length : Nat} {data seen : List α} {value : α} {rest : List α}
    (held : 2 * data.length ≤ wordCount) (split : data = seen ++ value :: rest)
    (calm : ∀ j ≤ seen.length, overrunsAt keep length data j = false) :
    Near length (arrived keep length seen value) := by
  have inside : seen.length < data.length := by
    rw [split, List.length_append, List.length_cons]
    omega
  by_cases fits : data.length + length ≤ wordCount
  · -- every index of the data is near
    refine near_of_mem fun c member => ?_
    rcases List.mem_cons.mp member with rfl | member
    · show seen.length + length < wordCount
      omega
    · have old := lt_of_mem_pushAll (fun _ none => absurd none List.not_mem_nil) c
        ((List.dropWhile_sublist _).mem member)
      rw [List.length_drop] at old
      omega
  · -- no value leaves the window, so the candidates are those of all that has been seen
    rw [arrived_of_le (by omega)]
    refine near_pushAll fun before x after parts far alone => ?_
    have whole : data = before ++ x :: (after ++ rest) := by
      rw [split, List.append_cons, parts, List.append_assoc, List.cons_append]
    have early : before.length ≤ seen.length := by
      have := congrArg List.length parts
      simp only [List.length_append, List.length_cons, List.length_nil] at this
      omega
    have overruns : overrunsAt keep length data before.length = true := by
      rw [overrunsAt_iff, whole, standsAlone_append]
      exact ⟨far, alone⟩
    rw [calm before.length early] at overruns
    cases overruns

end Deque

/-! ## Runs -/

namespace Overflow

open Deque

variable (o : Overflow)

theorem expire_eq {length stop : Nat} {q : Deque α} (near : Near length q) :
    o.expire length stop q = some (q.expire length stop) := by
  unfold Overflow.expire Deque.expire
  cases front : q.front? with
  | none => rfl
  | some c =>
      simp only [o.add_eq (near c front), Option.bind_eq_bind, Option.bind_some, Option.map_some,
        Option.getD_some, expired, decide_eq_true_eq]
      rfl

/-- As long as the fronts are near the answers are exact, and the candidates before what follows are
those of the exact run. -/
theorem extremesFrom_append (keep : α → α → Bool) {length : Nat} (positive : 0 < length)
    (seen xs ys : List α)
    (near : ∀ before value after, xs = before ++ value :: after →
      Near length (arrived keep length (seen ++ before) value)) :
    o.extremesFrom keep length (ofEnd keep length seen) seen.length (xs ++ ys) =
      (o.extremesFrom keep length (ofEnd keep length (seen ++ xs)) (seen ++ xs).length ys).map
        (Window.extremesFrom keep length (ofEnd keep length seen) seen.length xs ++ ·) := by
  induction xs generalizing seen with
  | nil =>
      rw [List.append_nil, List.nil_append, Window.extremesFrom]
      cases o.extremesFrom keep length (ofEnd keep length seen) seen.length ys <;> rfl
  | cons x rest ih =>
      have later := ih (seen ++ [x]) fun before value after split => by
        rw [List.append_assoc]
        exact near (x :: before) value after (by rw [split]; rfl)
      have here : Near length ((ofEnd keep length seen).push keep seen.length x) := by
        have := near [] x rest rfl
        rwa [List.append_nil] at this
      rw [List.length_append, List.length_singleton, List.append_assoc, List.singleton_append]
        at later
      rw [List.cons_append, Overflow.extremesFrom, o.expire_eq here, expire_push keep positive,
        Window.extremesFrom, expire_push keep positive, Option.bind_eq_bind, Option.bind_some,
        later]
      cases o.extremesFrom keep length (ofEnd keep length (seen ++ x :: rest))
        (seen ++ x :: rest).length ys <;> rfl

/-- A value that meets no candidates leaves at once if its index and the length sum up to no more
than the index. -/
theorem expire_push_nil (length i : Nat) (value : α) :
    o.expire length i (Deque.push keep [] i value) =
      (o.add i length).map fun past => if past ≤ i then [] else [(i, value)] := by
  show (do
    let past ← o.add i length
    return if past ≤ i then [] else [(i, value)]) = _
  cases o.add i length <;> rfl

/-- From a far index on, with no candidates left, every value leaves at once. -/
theorem extremesFrom_nil {length i : Nat} {rest : List α} (word : length < wordCount)
    (held : i + rest.length ≤ wordCount) (far : wordCount ≤ i + length) :
    wrap.extremesFrom keep length [] i rest = some rest := by
  induction rest generalizing i with
  | nil => rfl
  | cons value rest ih =>
      rw [List.length_cons] at held
      obtain ⟨past, summed, before⟩ := wrap_add (by omega : i < wordCount) word far
      have leaves : wrap.expire length i (Deque.push keep [] i value) = some [] := by
        rw [expire_push_nil, summed, Option.map_some, if_pos (Nat.le_of_lt before)]
      rw [Overflow.extremesFrom, leaves, Option.bind_eq_bind, Option.bind_some,
        ih (by omega) (by omega)]
      rfl

variable {length : Nat} {data : List α}

theorem extremesFrom_eq (positive : 0 < length) (held : 2 * data.length ≤ wordCount)
    (none : firstOverrun? keep length data = none) :
    o.extremesFrom keep length [] 0 data = some (Window.extremesFrom keep length [] 0 data) := by
  rw [firstOverrun?, List.find?_range_eq_none] at none
  have run := o.extremesFrom_append keep positive [] data [] ?_
  · rw [List.append_nil, ofEnd_nil, List.length_nil] at run
    rw [run, Overflow.extremesFrom, Option.map_some, List.append_nil]
  · intro before value after split
    have shorter : before.length < data.length := by
      rw [split, List.length_append, List.length_cons]
      omega
    rw [List.nil_append]
    refine near_arrived held split fun j le => ?_
    have clear := none j (by omega)
    rwa [Bool.not_eq_true'] at clear

/-- Before the first index that is too far the answers are exact, and what follows goes on without
candidates. -/
theorem extremesFrom_overrun (positive : 0 < length) (held : 2 * data.length ≤ wordCount) {j : Nat}
    (first : firstOverrun? keep length data = some j) :
    o.extremesFrom keep length [] 0 data =
      (o.extremesFrom keep length [] j (data.drop j)).map
        ((Window.extremesFrom keep length [] 0 data).take j ++ ·) := by
  obtain ⟨xs, value, rest, rfl, rfl, far, alone, calm⟩ := split_of_firstOverrun? first
  have wide : xs.length ≤ length := by
    rw [List.length_append, List.length_cons] at held
    omega
  have run := o.extremesFrom_append keep positive [] xs (value :: rest) ?_
  · -- the value drops what would be in its way
    have lone : (ofEnd keep length xs).push keep xs.length value =
        Deque.push keep [] xs.length value := arrived_alone wide alone
    have same : o.extremesFrom keep length (ofEnd keep length xs) xs.length (value :: rest) =
        o.extremesFrom keep length [] xs.length (value :: rest) := by
      rw [Overflow.extremesFrom, lone, Overflow.extremesFrom]
    have exact_ : Window.extremesFrom keep length [] 0 xs =
        (Window.extremesFrom keep length [] 0 (xs ++ value :: rest)).take xs.length := by
      rw [← (Causal.extremesFrom keep length [] 0).take, List.take_left]
    rw [ofEnd_nil, List.length_nil, List.nil_append, same, exact_] at run
    rw [run, List.drop_left]
  · intro seen old after parts
    have split : xs ++ value :: rest = seen ++ old :: (after ++ value :: rest) := by
      rw [parts, List.append_assoc, List.cons_append]
    have shorter : seen.length < xs.length := by
      rw [parts, List.length_append, List.length_cons]
      omega
    rw [List.nil_append]
    exact near_arrived held split fun k le => calm k (by omega)

/-- A checked build has an answer unless there is such an index. -/
theorem extremesFrom_trap (positive : 0 < length) (held : 2 * data.length ≤ wordCount) :
    trap.extremesFrom keep length [] 0 data =
      if (firstOverrun? keep length data).isSome then none
      else some (Window.extremesFrom keep length [] 0 data) := by
  cases first : firstOverrun? keep length data with
  | none => exact trap.extremesFrom_eq positive held first
  | some j =>
      obtain ⟨xs, value, rest, rfl, rfl, far, -, -⟩ := split_of_firstOverrun? first
      have stops : trap.extremesFrom keep length [] xs.length (value :: rest) = none := by
        rw [Overflow.extremesFrom, expire_push_nil, trap_add far]
        rfl
      rw [trap.extremesFrom_overrun positive held first, List.drop_left, stops]
      rfl

/-- An unchecked build always has an answer. -/
theorem extremesFrom_wrap (positive : 0 < length) (word : length < wordCount)
    (held : 2 * data.length ≤ wordCount) :
    wrap.extremesFrom keep length [] 0 data = some (overrunExtremes keep length data) := by
  cases first : firstOverrun? keep length data with
  | none =>
      simp only [overrunExtremes, first]
      exact wrap.extremesFrom_eq positive held first
  | some j =>
      obtain ⟨xs, value, rest, rfl, rfl, far, -, -⟩ := split_of_firstOverrun? first
      have within : xs.length + (value :: rest).length ≤ wordCount := by
        rw [List.length_append] at held
        omega
      simp only [overrunExtremes, first, List.drop_left]
      rw [wrap.extremesFrom_overrun positive held first, List.drop_left,
        extremesFrom_nil word within far, Option.map_some]

end Overflow

end Chartist.Window
