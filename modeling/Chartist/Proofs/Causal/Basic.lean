import Mathlib.Data.List.Basic

/-!
# Causal functions on lists

A causal function answers one value for each input, and what it answers to the first inputs
does not change when more of them follow. Functions that step through their input with a
state are causal (`Causal.of_step`), and so are functions that answer index by index from the
values up to the index (`Causal.of_index`); causal functions compose.
-/

namespace Chartist

variable {σ τ υ φ S : Type}

/-- One value for each input, the first values from the first inputs alone. -/
structure Causal (f : List σ → List τ) : Prop where
  length : ∀ xs, (f xs).length = xs.length
  take : ∀ xs n, f (xs.take n) = (f xs).take n

namespace Causal

/-- The answer grows at its end only. -/
theorem isPrefix {f : List σ → List τ} (causal : Causal f) (xs later : List σ) :
    f xs <+: f (xs ++ later) := by
  have first : f xs = (f (xs ++ later)).take xs.length := by
    rw [← causal.take, List.take_left]
  rw [first]
  exact List.take_prefix _ _

/-! ## Ways to step through a list -/

/-- A function that answers each input from a state and moves on to the next state. -/
theorem of_step {g : S → List σ → List τ} (out : S → σ → τ) (next : S → σ → S)
    (nil : ∀ s, g s [] = []) (cons : ∀ s x rest, g s (x :: rest) = out s x :: g (next s x) rest)
    (s : S) : Causal (g s) where
  length xs := by
    induction xs generalizing s with
    | nil => rw [nil, List.length_nil, List.length_nil]
    | cons x rest ih => rw [cons, List.length_cons, List.length_cons, ih]
  take xs n := by
    induction xs generalizing s n with
    | nil => rw [List.take_nil, nil, List.take_nil]
    | cons x rest ih =>
        cases n with
        | zero => rw [List.take_zero, List.take_zero, nil]
        | succ n => rw [List.take_succ_cons, cons, cons, List.take_succ_cons, ih]

/-- A function that takes its state from the first input. -/
theorem of_first {f : List σ → List τ} {g : σ → List σ → List τ} (out : σ → τ)
    (nil : f [] = []) (cons : ∀ x rest, f (x :: rest) = out x :: g x rest)
    (causal : ∀ x, Causal (g x)) : Causal f where
  length xs := by
    cases xs with
    | nil => rw [nil, List.length_nil, List.length_nil]
    | cons x rest => rw [cons, List.length_cons, List.length_cons, (causal x).length]
  take xs n := by
    cases xs with
    | nil => rw [List.take_nil, nil, List.take_nil]
    | cons x rest =>
        cases n with
        | zero => rw [List.take_zero, List.take_zero, nil]
        | succ n => rw [List.take_succ_cons, cons, cons, List.take_succ_cons, (causal x).take]

/-- A function that answers at each index from the values up to it. -/
theorem of_index {f : List σ → List τ} (value : List σ → Nat → τ)
    (eq : ∀ xs, f xs = (List.range xs.length).map (value xs))
    (upTo : ∀ xs n i, i < n → value (xs.take n) i = value xs i) : Causal f where
  length xs := by rw [eq, List.length_map, List.length_range]
  take xs n := by
    rw [eq, eq, ← List.map_take, List.take_range, List.length_take]
    refine List.map_congr_left fun i member => ?_
    exact upTo xs n i (Nat.lt_of_lt_of_le (List.mem_range.mp member) (Nat.min_le_left _ _))

/-! ## Combinations -/

protected theorem id : Causal fun xs : List σ => xs :=
  ⟨fun _ => rfl, fun _ _ => rfl⟩

protected theorem map (f : σ → τ) : Causal (List.map f) :=
  ⟨fun _ => List.length_map _, fun _ _ => List.map_take⟩

theorem comp {g : List τ → List υ} {f : List σ → List τ} (outer : Causal g) (inner : Causal f) :
    Causal fun xs => g (f xs) :=
  ⟨fun xs => by rw [outer.length, inner.length], fun xs n => by rw [inner.take, outer.take]⟩

theorem zipWith {f : List σ → List τ} {g : List σ → List υ} (left : Causal f) (right : Causal g)
    (op : τ → υ → φ) : Causal fun xs => List.zipWith op (f xs) (g xs) where
  length xs := by rw [List.length_zipWith, left.length, right.length, Nat.min_self]
  take xs n := by rw [left.take, right.take, List.take_zipWith]

theorem zip {f : List σ → List τ} {g : List σ → List υ} (left : Causal f) (right : Causal g) :
    Causal fun xs => (f xs).zip (g xs) :=
  left.zipWith right Prod.mk

theorem mapIdx (f : Nat → σ → τ) : Causal (List.mapIdx f) where
  length xs := List.length_mapIdx
  take xs n := by
    refine List.ext_getElem? fun i => ?_
    simp only [List.getElem?_mapIdx, List.getElem?_take]
    split <;> rfl

/-- One value throughout. -/
theorem replicate (x : τ) : Causal fun xs : List σ => List.replicate xs.length x :=
  ⟨fun _ => List.length_replicate,
    fun xs n => by rw [List.length_take, List.take_replicate, Nat.min_comm]⟩

end Causal

end Chartist
