import Mathlib.Data.List.Basic

/-!
# Computations by index

The definitions of this library take lists apart as wholes. `Chartist.Indexed` spells the same
computations out the way a machine goes through them: values are read and replaced at indices,
slices are cut out of lists and counts are subtracted. A step that would leave its range gives
`none`, and the whole computation fails with it. That none of them ever does is proved by
showing each one equal to the definition that it spells out.

Reading at an index is `xs[i]?`, and an assertion is `guard`. `loop_eq` and `scan_eq` are the
two inductions: on a loop whose states are known in advance, and on a loop that answers as a
recursion on a list does.
-/

namespace Chartist.Indexed

variable {σ τ φ S T : Type}

/-- `a - b`, which must not fall below zero. -/
def minus (a b : Nat) : Option Nat := if b ≤ a then some (a - b) else none

/-- The values at the indices from `first` up to `last`, the latter not included. -/
def slice (xs : List σ) (first last : Nat) : Option (List σ) :=
  if first ≤ last ∧ last ≤ xs.length then some ((xs.take last).drop first) else none

/-- The list with the value at an index replaced. -/
def put (xs : List σ) (i : Nat) (x : σ) : Option (List σ) :=
  if i < xs.length then some (xs.set i x) else none

/-- A step at each of `count` indices, with a state handed on. -/
def loop (step : Nat → S → Option S) : Nat → Nat → S → Option S
  | _, 0, s => some s
  | i, count + 1, s => do loop step (i + 1) count (← step i s)

/-- An answer at each of `count` indices, with a state handed on. -/
def scan (step : Nat → S → Option (S × σ)) : Nat → Nat → S → Option (List σ)
  | _, 0, _ => some []
  | i, count + 1, s => do
    let (s, x) ← step i s
    return x :: (← scan step (i + 1) count s)

/-- What `f` gives at the indices below `count`. -/
def collect (count : Nat) (f : Nat → Option σ) : Option (List σ) :=
  scan (fun i _ => do return ((), ← f i)) 0 count ()

theorem minus_eq {a b : Nat} (le : b ≤ a) : minus a b = some (a - b) := if_pos le

theorem slice_eq {xs : List σ} {first last : Nat} (le : first ≤ last) (inside : last ≤ xs.length) :
    slice xs first last = some ((xs.take last).drop first) :=
  if_pos ⟨le, inside⟩

/-- A slice up to the end. -/
theorem slice_length {xs : List σ} {first : Nat} (le : first ≤ xs.length) :
    slice xs first xs.length = some (xs.drop first) := by
  rw [slice_eq le (Nat.le_refl _), List.take_length]

theorem put_eq {xs : List σ} {i : Nat} (inside : i < xs.length) (x : σ) :
    put xs i x = some (xs.set i x) :=
  if_pos inside

/-- The first value after a part that is finished is replaced. -/
theorem put_append (done : List σ) (old x : σ) (rest : List σ) :
    put (done ++ old :: rest) done.length x = some (done ++ x :: rest) := by
  rw [put_eq (by simp), List.set_append_right _ _ (Nat.le_refl _), Nat.sub_self, List.set_cons_zero]

/-! ## Loops -/

theorem loop_eq (step : Nat → S → Option S) (state : Nat → S) (first count : Nat)
    (steps : ∀ i, first ≤ i → i < first + count → step i (state i) = some (state (i + 1))) :
    loop step first count (state first) = some (state (first + count)) := by
  induction count generalizing first with
  | zero => rfl
  | succ count ih =>
      have here := steps first (Nat.le_refl _) (by omega)
      have later : loop step (first + 1) count (state (first + 1)) = _ :=
        ih (first + 1) fun i after before => steps i (by omega) (by omega)
      rw [loop, here, Option.bind_eq_bind, Option.bind_some, later]
      congr 2
      omega

/-- A loop over later indices. -/
theorem loop_shift (step : Nat → S → Option S) (first count by' : Nat) (s : S) :
    loop step (first + by') count s = loop (fun i => step (i + by')) first count s := by
  induction count generalizing first s with
  | zero => rfl
  | succ count ih =>
      simp only [loop]
      refine bind_congr fun next => ?_
      rw [Nat.add_right_comm, ih]

/-- A scan answers as a recursion `g` on a list does, if a relation between the states of the
two is kept: when `g` goes on from `s` to `next s x`, so does the step at the index of `x`. -/
theorem scan_eq {step : Nat → T → Option (T × φ)} (data : List σ) {g : S → List σ → List φ}
    (out : S → σ → φ) (next : S → σ → S) (nil : ∀ s, g s [] = [])
    (cons : ∀ s x rest, g s (x :: rest) = out s x :: g (next s x) rest)
    (related : Nat → S → T → Prop)
    (steps : ∀ i x s t, data[i]? = some x → related i s t →
      ∃ t', step i t = some (t', out s x) ∧ related (i + 1) (next s x) t')
    {i : Nat} {s : S} {t : T} (start : related i s t) :
    scan step i (data.length - i) t = some (g s (data.drop i)) := by
  induction rest : data.drop i generalizing i s t with
  | nil =>
      have none : data.length - i = 0 := by simpa using congrArg List.length rest
      rw [none, nil]
      rfl
  | cons x later ih =>
      have here : data[i]? = some x := by
        rw [← List.head?_drop, rest, List.head?_cons]
      have tail : data.drop (i + 1) = later := by
        rw [← List.drop_drop, rest, List.drop_one, List.tail_cons]
      have count : data.length - i = data.length - (i + 1) + 1 := by
        have := congrArg List.length rest
        simp only [List.length_drop, List.length_cons] at this
        omega
      obtain ⟨t', stepped, kept⟩ := steps i x s t here start
      rw [count, scan, stepped, cons]
      simp only [Option.bind_eq_bind, Option.bind_some, ih kept tail]
      rfl

/-! ## Lists of answers -/

theorem mapM_eq {xs : List σ} {f : σ → Option τ} {g : σ → τ} (eq : ∀ x ∈ xs, f x = some (g x)) :
    xs.mapM f = some (xs.map g) := by
  induction xs with
  | nil => rfl
  | cons x rest ih =>
      have tail := ih fun y member => eq y (List.mem_cons_of_mem _ member)
      rw [List.mapM_cons, eq x List.mem_cons_self, tail]
      rfl

/-- Answers that are the values of a list. -/
theorem collect_values {xs : List σ} {f : Nat → Option σ}
    (eq : ∀ i x, xs[i]? = some x → f i = some x) : collect xs.length f = some xs := by
  refine scan_eq xs (g := fun (_ : Unit) xs => xs) (fun _ x => x) (fun _ _ => ())
    (fun _ => rfl) (fun _ _ _ => rfl) (fun _ _ _ => True) ?_ (s := ()) trivial
  intro i x _ _ here _
  exact ⟨(), by rw [eq i x here]; rfl, trivial⟩

theorem collect_eq {count : Nat} {f : Nat → Option σ} {g : Nat → σ}
    (eq : ∀ i < count, f i = some (g i)) : collect count f = some ((List.range count).map g) := by
  have values : collect ((List.range count).map g).length f = some ((List.range count).map g) := by
    refine collect_values fun i x here => ?_
    obtain ⟨inside, rfl⟩ := List.getElem?_eq_some_iff.mp here
    simpa using eq i (by simpa using inside)
  simpa using values

end Chartist.Indexed
