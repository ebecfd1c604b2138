import Chartist.Window.Basic
import Mathlib.Data.List.Basic

/-!
# Functions with a finite memory

A function on lists remembers `width` values if its answer at an index is fixed by the last
`width` values up to that index, once there are that many (`Remembers`). Whatever is computed
window by window does (`Remembers.of_windows`), and such functions can be combined value by
value. A value that is wrong, or no number at all, is then forgotten after `width` steps.
-/

namespace Chartist

open Window

variable {σ τ υ φ : Type}

/-- Two lists hold the same values at the last `width` indices up to `stop`. -/
def SameWindow (width stop : Nat) (xs ys : List σ) : Prop :=
  ∀ j, stop + 1 ≤ j + width → j ≤ stop → xs[j]? = ys[j]?

/-- The answer at an index with `width` values of history is there, and two lists of one
length that hold the same `width` values up to the index have the same answer. -/
def Remembers (width : Nat) (f : List σ → List τ) : Prop :=
  ∀ xs ys i, xs.length = ys.length → i < xs.length → width ≤ i + 1 →
    SameWindow width i xs ys → ∃ answer, (f xs)[i]? = some answer ∧ (f ys)[i]? = some answer

namespace SameWindow

variable {width stop : Nat} {xs ys : List σ}

theorem narrow {narrower : Nat} (same : SameWindow width stop xs ys)
    (le : narrower ≤ width) : SameWindow narrower stop xs ys := by
  intro j after before
  exact same j (by omega) before

theorem map (same : SameWindow width stop xs ys) (f : σ → τ) :
    SameWindow width stop (xs.map f) (ys.map f) := by
  intro j after before
  rw [List.getElem?_map, List.getElem?_map, same j after before]

/-- The windows hold the same list. -/
theorem trailing_eq (same : SameWindow width stop xs ys) :
    trailing xs stop width = trailing ys stop width := by
  refine List.ext_getElem? fun k => ?_
  unfold trailing
  by_cases inside : k < span stop width
  · rw [List.getElem?_take_of_lt inside, List.getElem?_take_of_lt inside, List.getElem?_drop,
      List.getElem?_drop]
    unfold start
    unfold span at inside ⊢
    exact same _ (by omega) (by omega)
  · rw [List.getElem?_take_eq_none (by omega), List.getElem?_take_eq_none (by omega)]

end SameWindow

/-! ## Windows as lists -/

namespace Window

theorem length_trailing {data : List σ} {stop : Nat} (inside : stop < data.length)
    (length : Nat) : (trailing data stop length).length = span stop length := by
  unfold trailing start span
  rw [List.length_take, List.length_drop]
  omega

theorem trailing_ne_nil {data : List σ} {stop length : Nat} (inside : stop < data.length)
    (positive : 0 < length) : trailing data stop length ≠ [] := by
  rw [← List.length_pos_iff, length_trailing inside]
  unfold span
  omega

/-- The window reads the values of the list from its start on. -/
theorem getElem?_trailing {data : List σ} {stop length k : Nat} (inside : k < span stop length) :
    (trailing data stop length)[k]? = data[start stop length + k]? := by
  unfold trailing
  rw [List.getElem?_take_of_lt inside, List.getElem?_drop]

theorem trailing_map (f : σ → τ) (data : List σ) (stop length : Nat) :
    trailing (data.map f) stop length = (trailing data stop length).map f := by
  rw [trailing, trailing, List.map_take, List.map_drop]

theorem length_rolling (f : List σ → τ) (data : List σ) (length : Nat) :
    (rolling f data length).length = data.length := by
  rw [rolling, List.length_map, List.length_range]

theorem getElem?_rolling (f : List σ → τ) {data : List σ} {stop : Nat}
    (inside : stop < data.length) (length : Nat) :
    (rolling f data length)[stop]? = some (f (trailing data stop length)) := by
  rw [rolling, List.getElem?_map, List.getElem?_range inside]
  rfl

theorem rolling_map (f : List τ → υ) (g : σ → τ) (data : List σ) (length : Nat) :
    rolling f (data.map g) length = rolling (fun window => f (window.map g)) data length := by
  simp only [rolling, List.length_map, trailing_map]

theorem map_rolling (f : List σ → τ) (g : τ → υ) (data : List σ) (length : Nat) :
    (rolling f data length).map g = rolling (fun window => g (f window)) data length := by
  simp only [rolling, List.map_map, Function.comp_def]

theorem zipWith_rolling (op : τ → υ → φ) (f : List σ → τ) (g : List σ → υ) (data : List σ)
    (length : Nat) :
    List.zipWith op (rolling f data length) (rolling g data length) =
      rolling (fun window => op (f window) (g window)) data length := by
  rw [rolling, rolling, List.zipWith_map, List.zipWith_self]
  rfl

/-- Only windows that hold a value are read. -/
theorem rolling_congr {f g : List σ → τ} {data : List σ} {length : Nat} (positive : 0 < length)
    (same : ∀ window, window ≠ [] → f window = g window) :
    rolling f data length = rolling g data length := by
  refine List.map_congr_left fun i member => ?_
  exact same _ (trailing_ne_nil (List.mem_range.mp member) positive)

/-- The last value of a window is the one at its index. -/
theorem getLast?_trailing {data : List σ} {stop length : Nat} (inside : stop < data.length)
    (positive : 0 < length) : (trailing data stop length).getLast? = data[stop]? := by
  have some : 0 < span stop length := by
    unfold span
    omega
  have last : start stop length + (span stop length - 1) = stop := by
    unfold start span
    omega
  rw [List.getLast?_eq_getElem?, length_trailing inside, getElem?_trailing (by omega), last]

theorem trailing_subset (data : List σ) (stop length : Nat) :
    trailing data stop length ⊆ data :=
  fun _ member => List.mem_of_mem_drop (List.mem_of_mem_take member)

/-- A value is in the window that ends with it. -/
theorem mem_trailing {data : List σ} {stop length : Nat} (positive : 0 < length) {x : σ}
    (here : data[stop]? = some x) : x ∈ trailing data stop length := by
  obtain ⟨inside, -⟩ := List.getElem?_eq_some_iff.mp here
  exact List.mem_of_getLast? ((getLast?_trailing inside positive).trans here)

/-- A list holds the last values of its windows. -/
theorem rolling_last (data : List σ) {length : Nat} (positive : 0 < length) (other : σ) :
    rolling (fun window => window.getLast?.getD other) data length = data := by
  apply List.ext_getElem?
  intro i
  by_cases inside : i < data.length
  · rw [getElem?_rolling _ inside, getLast?_trailing inside positive,
      List.getElem?_eq_getElem inside, Option.getD_some]
  · have beyond := Nat.le_of_not_lt inside
    rw [List.getElem?_eq_none beyond, List.getElem?_eq_none]
    rwa [length_rolling]

end Window

/-! ## Ways to remember -/

namespace Remembers

variable {width : Nat} {f : List σ → List τ} {g : List σ → List υ}

/-- A function that answers at each index from the window and the index. -/
theorem of_windows (answer : Nat → List σ → τ)
    (eq : ∀ xs, f xs = (List.range xs.length).map fun i => answer i (trailing xs i width)) :
    Remembers width f := by
  intro xs ys i lengths inside _ same
  have there : i < ys.length := lengths ▸ inside
  refine ⟨answer i (trailing xs i width), ?_, ?_⟩
  · rw [eq, List.getElem?_map, List.getElem?_range inside]
    rfl
  · rw [eq, List.getElem?_map, List.getElem?_range there, same.trailing_eq]
    rfl

theorem rolling (statistic : List σ → τ) (width : Nat) :
    Remembers width fun data => rolling statistic data width :=
  of_windows (fun _ => statistic) fun _ => rfl

/-- A longer memory is a memory too. -/
theorem widen {wider : Nat} (remembers : Remembers width f) (le : width ≤ wider) :
    Remembers wider f := by
  intro xs ys i lengths inside history same
  exact remembers xs ys i lengths inside (by omega) (same.narrow le)

/-- The values themselves. -/
theorem id (positive : 0 < width) : Remembers width fun xs : List σ => xs := by
  intro xs ys i _ inside _ same
  have here := List.getElem?_eq_getElem inside
  exact ⟨xs[i], here, same i (by omega) (Nat.le_refl i) ▸ here⟩

theorem map (remembers : Remembers width f) (h : τ → υ) :
    Remembers width fun xs => (f xs).map h := by
  intro xs ys i lengths inside history same
  obtain ⟨answer, left, right⟩ := remembers xs ys i lengths inside history same
  exact ⟨h answer, by rw [List.getElem?_map, left]; rfl, by rw [List.getElem?_map, right]; rfl⟩

theorem zipWith (first : Remembers width f) (second : Remembers width g) (op : τ → υ → φ) :
    Remembers width fun xs => List.zipWith op (f xs) (g xs) := by
  intro xs ys i lengths inside history same
  obtain ⟨a, leftA, rightA⟩ := first xs ys i lengths inside history same
  obtain ⟨b, leftB, rightB⟩ := second xs ys i lengths inside history same
  refine ⟨op a b, ?_, ?_⟩
  · rw [List.getElem?_zipWith, leftA, leftB]
  · rw [List.getElem?_zipWith, rightA, rightB]

/-- What is computed from a reading of each value. -/
theorem comp_map {h : List τ → List υ} (remembers : Remembers width h) (read : σ → τ) :
    Remembers width fun xs => h (xs.map read) := by
  intro xs ys i lengths inside history same
  exact remembers (xs.map read) (ys.map read) i (by simpa using lengths) (by simpa using inside)
    history (same.map read)

end Remembers

end Chartist
