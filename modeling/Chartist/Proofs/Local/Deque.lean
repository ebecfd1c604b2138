import Chartist.Proofs.Local.Basic
import Chartist.Window.Rolling

/-!
# The deque forgets what left the window

The running extremes carry a deque over the whole series. After each step it holds just the
candidates that the values of the current window leave on their own, pushed in turn onto
nothing (`expire_push`), so the extremes are a statistic of the window after all
(`extremesFrom_eq_rolling`). Nothing is asked of the comparison: it need not be an order, and
a value that compares with nothing may stand anywhere.
-/

namespace Chartist.Window

variable {α : Type}

/-- The window at an index is the end of what has been seen by then. -/
theorem trailing_eq_drop (data : List α) (stop length : Nat) :
    trailing data stop length = (data.take (stop + 1)).drop (stop + 1 - length) := by
  unfold trailing start span
  rw [List.drop_take]
  congr 1
  · omega
  · congr 1
    omega

/-- The values of a window that no later one has beaten, newest first. -/
def survivors (keep : α → α → Bool) (xs : List α) : List α :=
  xs.foldl (fun kept new => new :: kept.dropWhile fun old => !keep old new) []

/-- The value of a window that has stood longest without being beaten. -/
def oldest [Scalar α] (keep : α → α → Bool) (xs : List α) : α :=
  (survivors keep xs).getLast?.getD Scalar.nan

namespace Deque

/-- The candidates after the values of a list have come in turn, the first one at an index. -/
def pushAll (keep : α → α → Bool) : Deque α → Nat → List α → Deque α
  | q, _, [] => q
  | q, index, value :: rest => pushAll keep (q.push keep index value) (index + 1) rest

variable (keep : α → α → Bool)

theorem pushAll_append (q : Deque α) (index : Nat) (xs ys : List α) :
    pushAll keep q index (xs ++ ys) = pushAll keep (pushAll keep q index xs) (index + xs.length) ys := by
  induction xs generalizing q index with
  | nil => rfl
  | cons x rest ih =>
      have next : index + 1 + rest.length = index + (rest.length + 1) := by omega
      rw [List.cons_append, pushAll, pushAll, ih, List.length_cons, next]

theorem pushAll_ne_nil (q : Deque α) (index : Nat) {xs : List α} (some : xs ≠ []) :
    pushAll keep q index xs ≠ [] := by
  obtain ⟨before, last, rfl⟩ := (List.eq_nil_or_concat' xs).resolve_left some
  rw [pushAll_append]
  exact List.cons_ne_nil _ _

/-- Without their indices, the candidates are the survivors. -/
theorem map_snd_pushAll (index : Nat) (xs : List α) :
    (pushAll keep [] index xs).map Prod.snd = survivors keep xs := by
  have general (q : Deque α) : (pushAll keep q index xs).map Prod.snd =
      xs.foldl (fun kept new => new :: kept.dropWhile fun old => !keep old new)
        (q.map Prod.snd) := by
    induction xs generalizing q index with
    | nil => rfl
    | cons x rest ih =>
        rw [pushAll, ih, List.foldl_cons, push, List.map_cons, List.dropWhile_map]
        rfl
  exact general []

/-- Candidates come from the list or were there before. -/
theorem le_of_mem_pushAll {first index : Nat} {q : Deque α} {xs : List α}
    (before : ∀ c ∈ q, first ≤ c.1) (le : first ≤ index) :
    ∀ c ∈ pushAll keep q index xs, first ≤ c.1 := by
  induction xs generalizing q index with
  | nil => exact before
  | cons x rest ih =>
      refine ih (fun c member => ?_) (by omega)
      rcases List.mem_cons.mp member with rfl | member
      · exact le
      · exact before c ((List.dropWhile_sublist _).mem member)

/-! ## One candidate more at the front -/

/-- A value that comes drops the front candidate or does not see it: the others fare the
same with and without it. -/
theorem push_concat (q : Deque α) (c : Nat × α) (index : Nat) (value : α) :
    push keep (q ++ [c]) index value = q.push keep index value ++ [c] ∨
      push keep (q ++ [c]) index value = q.push keep index value := by
  unfold push
  rw [List.dropWhile_append]
  split
  next all =>
    rw [List.isEmpty_iff.mp all]
    by_cases kept : keep c.2 value = true
    · exact .inl (by simp [kept])
    · exact .inr (by simp [kept])
  next => exact .inl (List.cons_append).symm

theorem pushAll_concat (q : Deque α) (c : Nat × α) (index : Nat) (xs : List α) :
    pushAll keep (q ++ [c]) index xs = pushAll keep q index xs ++ [c] ∨
      pushAll keep (q ++ [c]) index xs = pushAll keep q index xs := by
  induction xs generalizing q index with
  | nil => exact .inl rfl
  | cons x rest ih =>
      rw [pushAll, pushAll]
      rcases push_concat keep q c index x with stays | dropped
      · rw [stays]
        exact ih _ _
      · rw [dropped]
        exact .inr rfl

/-! ## The front leaves -/

theorem expire_of_fresh {length stop : Nat} {q : Deque α}
    (fresh : ∀ c ∈ q, stop < c.1 + length) : q.expire length stop = q := by
  unfold expire
  cases front : q.front? with
  | none => rfl
  | some c =>
      have here : stop < c.1 + length := fresh c (List.mem_of_getLast? front)
      have stays : expired length stop c = false := by
        unfold expired
        simpa using here
      simp [stays]

/-- A candidate that stands at the front and has left the window is dropped. -/
theorem expire_concat {length stop : Nat} (q : Deque α) {c : Nat × α}
    (old : c.1 + length ≤ stop) : expire length stop (q ++ [c]) = q := by
  have leaves : expired length stop c = true := by
    unfold expired
    simpa using old
  unfold expire front?
  rw [List.getLast?_concat, Option.map_some, leaves]
  exact List.dropLast_concat

/-- The first of the values leaves the window: what remains is what the others leave alone. -/
theorem expire_pushAll_cons (index length : Nat) (x : α) (xs : List α) :
    (pushAll keep [] index (x :: xs)).expire length (index + length) =
      pushAll keep [] (index + 1) xs := by
  have later : ∀ c ∈ pushAll keep [] (index + 1) xs, index + 1 ≤ c.1 :=
    le_of_mem_pushAll keep (fun _ member => absurd member List.not_mem_nil) (Nat.le_refl _)
  have first : pushAll keep [] index (x :: xs) =
      pushAll keep ([] ++ [(index, x)]) (index + 1) xs := rfl
  rw [first]
  rcases pushAll_concat keep [] (index, x) (index + 1) xs with stays | dropped
  · rw [stays]
    exact expire_concat _ (Nat.le_refl _)
  · rw [dropped]
    refine expire_of_fresh fun c member => ?_
    have := later c member
    omega

/-! ## Along the series -/

/-- What the window at the end of a list leaves on its own. -/
def ofEnd (length : Nat) (seen : List α) : Deque α :=
  pushAll keep [] (seen.length - length) (seen.drop (seen.length - length))

theorem ofEnd_nil (length : Nat) : ofEnd keep length [] = [] := by
  rw [ofEnd, List.drop_nil]
  rfl

/-- One step takes the candidates of one window to those of the next. -/
theorem expire_push {length : Nat} (positive : 0 < length) (seen : List α) (value : α) :
    ((ofEnd keep length seen).push keep seen.length value).expire length seen.length =
      ofEnd keep length (seen ++ [value]) := by
  have whole : seen.length - length + (seen.drop (seen.length - length)).length = seen.length := by
    rw [List.length_drop]
    omega
  have pushed : (ofEnd keep length seen).push keep seen.length value =
      pushAll keep [] (seen.length - length) ((seen ++ [value]).drop (seen.length - length)) := by
    rw [List.drop_append_of_le_length (by omega), pushAll_append, whole]
    rfl
  rw [pushed, ofEnd, List.length_append, List.length_singleton]
  by_cases filling : seen.length < length
  · -- the window still grows, so nothing has left it
    have starts : seen.length + 1 - length = seen.length - length := by omega
    rw [starts]
    exact expire_of_fresh fun c _ => by omega
  · have inside : seen.length - length < (seen ++ [value]).length := by
      rw [List.length_append]
      omega
    have starts : seen.length + 1 - length = seen.length - length + 1 := by omega
    have stop : seen.length - length + length = seen.length := by omega
    rw [List.drop_eq_getElem_cons inside, starts]
    have step := expire_pushAll_cons keep (seen.length - length) length
      (seen ++ [value])[seen.length - length]
      ((seen ++ [value]).drop (seen.length - length + 1))
    rw [stop] at step
    exact step

end Deque

variable [Scalar α]

/-- The front of the candidates of a window is its oldest survivor. -/
theorem Deque.front?_ofEnd (keep : α → α → Bool) {length : Nat} (positive : 0 < length)
    {seen : List α} (some : seen ≠ []) (fallback : α) :
    ((Deque.ofEnd keep length seen).front?.map (·.2)).getD fallback =
      oldest keep (seen.drop (seen.length - length)) := by
  have nonempty : seen.drop (seen.length - length) ≠ [] := by
    have := List.length_pos_of_ne_nil some
    rw [ne_eq, List.drop_eq_nil_iff]
    omega
  obtain ⟨c, front⟩ := Option.ne_none_iff_exists'.mp fun empty =>
    Deque.pushAll_ne_nil keep [] (seen.length - length) nonempty (List.getLast?_eq_none_iff.mp empty)
  have last : (survivors keep (seen.drop (seen.length - length))).getLast? = Option.some c.2 := by
    rw [← Deque.map_snd_pushAll keep (seen.length - length), List.getLast?_map, front]
    rfl
  have here : (Deque.ofEnd keep length seen).front? = Option.some c := front
  rw [here, oldest, last]
  rfl

/-- The extremes from an index on are those of the windows that end there and later. -/
theorem extremesFrom_eq (keep : α → α → Bool) {length : Nat} (positive : 0 < length)
    (seen rest : List α) :
    extremesFrom keep length (Deque.ofEnd keep length seen) seen.length rest =
      (List.range rest.length).map fun k =>
        oldest keep (trailing (seen ++ rest) (seen.length + k) length) := by
  induction rest generalizing seen with
  | nil => rfl
  | cons value rest ih =>
      have here : trailing (seen ++ value :: rest) seen.length length =
          (seen ++ [value]).drop ((seen ++ [value]).length - length) := by
        rw [trailing_eq_drop, List.length_append, List.length_singleton,
          List.take_append, List.take_of_length_le (by omega), Nat.add_sub_cancel_left]
        rfl
      have later := ih (seen ++ [value])
      rw [List.length_append, List.length_singleton, List.append_assoc,
        List.singleton_append] at later
      rw [extremesFrom, Deque.expire_push keep positive, later, List.length_cons,
        List.range_succ_eq_map, List.map_cons, List.map_map,
        Deque.front?_ofEnd keep positive (List.concat_ne_nil _ _)]
      congr 1
      · rw [Nat.add_zero, here]
      · refine List.map_congr_left fun k _ => ?_
        show oldest keep (trailing (seen ++ value :: rest) (seen.length + 1 + k) length) = _
        rw [Nat.add_assoc, Nat.add_comm 1 k]
        rfl

/-- The running extremes are a statistic of each window on its own. -/
theorem extremesFrom_eq_rolling (keep : α → α → Bool) {length : Nat} (positive : 0 < length)
    (data : List α) : extremesFrom keep length [] 0 data = rolling (oldest keep) data length := by
  have run := extremesFrom_eq keep positive [] data
  simp only [Deque.ofEnd_nil, List.nil_append, List.length_nil, Nat.zero_add] at run
  exact run

end Chartist.Window
