import Chartist.Proofs.Exact.Basic
import Mathlib.LinearAlgebra.Prod
import Mathlib.Tactic.Ring

/-!
# Linear functions on series

What a linear function does to a pair of series decides what it does to all their blends. So a
function is run on points of a plane, read off as scalars by a linear functional: the first
coordinates are one series, the second ones the other, and every blend is a functional too. The
function has a *gain* (`HasGain`) if one list of points is read off its answers, whichever
functional is used, and if it answers a constant with the gain times the constant. Linearity
follows (`HasGain.isLinear`), and gains are found part by part: of compositions, of differences
and of functions that step through a series with a state (`Answers.of_step`).
-/

namespace Chartist

/-! ## Points read as scalars -/

variable {α K : Type} [Field K]

/-- A point of the plane, as a scalar. -/
def reading (num : K → α) (φ : K × K →ₗ[K] K) (point : K × K) : α := num (φ point)

/-- Answers to points are read off points as well, one for each; where all points are one that
satisfies `rest`, all answers are that point times the gain. -/
def Answers (num : K → α) (gain : K) (rest : K × K → Prop) (points : List (K × K))
    (answer : (K × K →ₗ[K] K) → List α) : Prop :=
  ∃ answers : List (K × K), answers.length = points.length ∧
    (∀ φ, answer φ = answers.map (reading num φ)) ∧
    ∀ w, rest w → (∀ t ∈ points, t = w) → ∀ s ∈ answers, s = gain • w

/-- Two series of one length are the coordinates of one list of points. -/
theorem readings_zip (num : K → α) {xs ys : List K} (aligned : xs.length = ys.length) :
    xs.map num = (xs.zip ys).map (reading num (LinearMap.fst K K K)) ∧
    ys.map num = (xs.zip ys).map (reading num (LinearMap.snd K K K)) := by
  constructor
  · rw [← congrArg (List.map num) (List.map_fst_zip (Nat.le_of_eq aligned)), List.map_map]
    rfl
  · rw [← congrArg (List.map num) (List.map_snd_zip (Nat.le_of_eq aligned.symm)), List.map_map]
    rfl

/-- A linear function that multiplies constants by the gain. -/
def HasGain (num : K → α) (gain : K) (f : List α → List α) : Prop :=
  ∀ points : List (K × K),
    Answers num gain (fun _ => True) points fun φ => f (points.map (reading num φ))

/-! ## Functions that step through a series -/

namespace Answers

variable {num : K → α} {gain : K} {rest : K × K → Prop} {points : List (K × K)}
  {answer : (K × K →ₗ[K] K) → List α}

theorem nil (empty : ∀ φ, answer φ = []) : Answers num gain rest [] answer := by
  refine ⟨[], rfl, empty, ?_⟩
  intro w _ _ s member
  exact absurd member List.not_mem_nil

/-- A constant may be known to settle from the points themselves. -/
theorem mono {before : K × K → Prop} (answers : Answers num gain rest points answer)
    (settled : ∀ w, before w → (∀ t ∈ points, t = w) → rest w) :
    Answers num gain before points answer := by
  obtain ⟨list, length, read, constant⟩ := answers
  refine ⟨list, length, read, ?_⟩
  intro w started same
  exact constant w (settled w started same) same

theorem cons {before : K × K → Prop} {t out : K × K} (later : Answers num gain rest points answer)
    (settled : ∀ w, before w → t = w → out = gain • w ∧ rest w) :
    Answers num gain before (t :: points) fun φ => reading num φ out :: answer φ := by
  obtain ⟨answers, length, read, constant⟩ := later
  refine ⟨out :: answers, ?_, ?_, ?_⟩
  · rw [List.length_cons, List.length_cons, length]
  · intro φ
    simp only [read, List.map_cons]
  · intro w started same s member
    obtain ⟨first, others⟩ := List.forall_mem_cons.mp same
    obtain ⟨settles, continues⟩ := settled w started first
    rcases List.mem_cons.mp member with rfl | member
    · exact settles
    · exact constant w continues others s member

/-- A function that answers from a state and moves on, where its states are those of points,
read by the functional. States stay valid, and a constant keeps a state that is settled on it. -/
theorem of_step {σ V : Type} {g : σ → List α → List α} (state : (K × K →ₗ[K] K) → V → σ)
    (out : V → K × K → K × K) (next : V → K × K → V) (valid : V → Prop)
    (settled : K × K → V → Prop) (nil : ∀ s, g s [] = [])
    (cons : ∀ φ v t later, valid v → g (state φ v) (reading num φ t :: later) =
      reading num φ (out v t) :: g (state φ (next v t)) later)
    (keeps : ∀ v t, valid v → valid (next v t))
    (constant : ∀ v w, valid v → settled w v → out v w = gain • w ∧ settled w (next v w))
    {v : V} (start : valid v) (points : List (K × K)) :
    Answers num gain (settled · v) points fun φ =>
      g (state φ v) (points.map (reading num φ)) := by
  induction points generalizing v with
  | nil => exact .nil fun φ => nil _
  | cons t points ih =>
      have later := ih (keeps v t start)
      simp only [List.map_cons, cons _ v t _ start]
      refine later.cons fun w steady same => ?_
      cases same
      exact constant v t start steady

end Answers

namespace HasGain

variable {num : K → α} {gain gain' : K} {f g : List α → List α}

/-- A function that passes its first value on and takes its state from it. -/
theorem of_first {h : α → List α → List α} {rest : K × K → K × K → Prop} (nil : f [] = [])
    (cons : ∀ x later, f (x :: later) = x :: h x later)
    (later : ∀ t points, Answers num 1 (rest t) points fun φ =>
      h (reading num φ t) (points.map (reading num φ)))
    (settled : ∀ w, rest w w) : HasGain num 1 f := by
  intro points
  cases points with
  | nil => exact .nil fun _ => nil
  | cons t points =>
      simp only [List.map_cons, cons]
      refine (later t points).cons fun w _ same => ?_
      cases same
      exact ⟨(one_smul K t).symm, settled t⟩

/-! ## Combinations -/

theorem comp (outer : HasGain num gain' g) (inner : HasGain num gain f) :
    HasGain num (gain' * gain) fun xs => g (f xs) := by
  intro points
  obtain ⟨between, length, read, constant⟩ := inner points
  obtain ⟨answers, length', read', constant'⟩ := outer between
  refine ⟨answers, length'.trans length, ?_, ?_⟩
  · intro φ
    simp only [read, read']
  · intro w _ same
    rw [mul_smul]
    exact constant' (gain • w) trivial (constant w trivial same)

/-- A single series is read off points on the first axis. -/
theorem numbers (linear : HasGain num gain f) (xs : List K) :
    ∃ ys : List K, ys.length = xs.length ∧ f (xs.map num) = ys.map num := by
  obtain ⟨answers, length, read, -⟩ := linear (xs.map (·, 0))
  have answered := read (LinearMap.fst K K K)
  simp only [List.map_map] at answered
  refine ⟨answers.map Prod.fst, ?_, ?_⟩
  · rw [List.length_map, length, List.length_map]
  · rw [List.map_map]
    exact answered

end HasGain

/-! ## Exact arithmetic on points -/

variable [LinearOrder K] [Scalar α]

section Arithmetic

variable {num : K → α} (exact : Exact num) (φ : K × K →ₗ[K] K) (s t : K × K)
include exact

theorem Exact.reading_add : reading num φ s + reading num φ t = reading num φ (s + t) := by
  rw [reading, reading, exact.add, reading, map_add]

theorem Exact.reading_sub : reading num φ s - reading num φ t = reading num φ (s - t) := by
  rw [reading, reading, exact.sub, reading, map_sub]

theorem Exact.mul_reading (k : K) : num k * reading num φ t = reading num φ (k • t) := by
  rw [reading, exact.mul, reading, map_smul, smul_eq_mul]

theorem Exact.reading_mul (k : K) : reading num φ t * num k = reading num φ (k • t) := by
  rw [reading, exact.mul, reading, map_smul, smul_eq_mul, mul_comm]

theorem Exact.reading_div {k : K} (nonzero : k ≠ 0) :
    reading num φ t / num k = reading num φ (k⁻¹ • t) := by
  rw [reading, exact.div _ _ nonzero, reading, map_smul, smul_eq_mul, div_eq_inv_mul]

end Arithmetic

theorem HasGain.sub {num : K → α} {gain gain' : K} {f g : List α → List α} (exact : Exact num)
    (left : HasGain num gain f)
    (right : HasGain num gain' g) :
    HasGain num (gain - gain') fun xs => List.zipWith (· - ·) (f xs) (g xs) := by
  intro points
  obtain ⟨ls, lengthL, readL, constantL⟩ := left points
  obtain ⟨rs, lengthR, readR, constantR⟩ := right points
  refine ⟨List.zipWith (· - ·) ls rs, ?_, ?_, ?_⟩
  · rw [List.length_zipWith, lengthL, lengthR, Nat.min_self]
  · intro φ
    simp only [readL, readR, List.zipWith_map, List.map_zipWith, exact.reading_sub]
  · intro w _ same s member
    obtain ⟨i, here⟩ := List.mem_iff_getElem?.mp member
    obtain ⟨l, r, hereL, hereR, rfl⟩ := List.getElem?_zipWith_eq_some.mp here
    rw [constantL w trivial same l (List.mem_of_getElem? hereL),
      constantR w trivial same r (List.mem_of_getElem? hereR), sub_smul]

/-! ## Linearity -/

open Scalar

/-- The sum of two series with a factor for each of them. -/
def blend (a b : α) (xs ys : List α) : List α := List.zipWith (fun x y => a * x + b * y) xs ys

/-- Numbers have numbers for an answer, a blend has the blend of the answers, and a constant
has a constant. -/
structure IsLinear (constant : α → α) (f : List α → List α) : Prop where
  length : ∀ xs, (∀ x ∈ xs, isFinite x = true) → (f xs).length = xs.length
  finite : ∀ xs, (∀ x ∈ xs, isFinite x = true) → ∀ y ∈ f xs, isFinite y = true
  blends : ∀ a b xs ys, isFinite a = true → isFinite b = true → (∀ x ∈ xs, isFinite x = true) →
    (∀ y ∈ ys, isFinite y = true) → xs.length = ys.length →
      f (blend a b xs ys) = blend a b (f xs) (f ys)
  constants : ∀ n c, isFinite c = true → f (List.replicate n c) = List.replicate n (constant c)

/-- The functional that blends the coordinates of a point. -/
def mixing (a b : K) : K × K →ₗ[K] K where
  toFun t := a * t.1 + b * t.2
  map_add' s t := by
    simp only [Prod.fst_add, Prod.snd_add]
    ring
  map_smul' k t := by
    simp only [Prod.smul_fst, Prod.smul_snd, smul_eq_mul, RingHom.id_apply]
    ring

section Blends

variable {num : K → α} (exact : Exact num)
include exact

/-- A blend of the coordinates of points is one more functional of them. -/
theorem Exact.blend_reading (a b : K) (points : List (K × K)) :
    blend (num a) (num b) (points.map (reading num (LinearMap.fst K K K)))
      (points.map (reading num (LinearMap.snd K K K))) =
      points.map (reading num (mixing a b)) := by
  rw [blend, List.zipWith_map, List.zipWith_self]
  refine List.map_congr_left fun t _ => ?_
  simp only [reading, exact.mul, exact.add]
  rfl

/-- A function with a gain is linear: the two series and their blend are read off the same
points, and so are the answers. -/
theorem HasGain.isLinear {gain : K} {f : List α → List α} (linear : HasGain num gain f)
    {constant : α → α} (level : ∀ c, constant (num c) = num (gain * c)) :
    IsLinear constant f := by
  refine ⟨?_, ?_, ?_, ?_⟩
  · intro xs finite
    obtain ⟨ks, rfl⟩ := exact.exists_map finite
    obtain ⟨ls, length, answered⟩ := linear.numbers ks
    rw [answered, List.length_map, List.length_map, length]
  · intro xs finite y member
    obtain ⟨ks, rfl⟩ := exact.exists_map finite
    obtain ⟨ls, -, answered⟩ := linear.numbers ks
    rw [answered] at member
    obtain ⟨k, -, rfl⟩ := List.mem_map.mp member
    exact exact.finite k
  · intro a b xs ys finiteA finiteB finiteX finiteY aligned
    obtain ⟨p, rfl⟩ := (exact.isFinite a).mp finiteA
    obtain ⟨q, rfl⟩ := (exact.isFinite b).mp finiteB
    obtain ⟨ks, rfl⟩ := exact.exists_map finiteX
    obtain ⟨ls, rfl⟩ := exact.exists_map finiteY
    rw [List.length_map, List.length_map] at aligned
    obtain ⟨first, second⟩ := readings_zip num aligned
    obtain ⟨answers, -, read, -⟩ := linear (ks.zip ls)
    simp only at read
    rw [first, second, exact.blend_reading, read, read, read, exact.blend_reading]
  · intro n c finite
    obtain ⟨k, rfl⟩ := (exact.isFinite c).mp finite
    obtain ⟨answers, length, read, constant⟩ := linear (List.replicate n (k, 0))
    have same := constant (k, 0) trivial fun t member => List.eq_of_mem_replicate member
    rw [List.length_replicate] at length
    have answered := read (LinearMap.fst K K K)
    rw [List.eq_replicate_iff.mpr ⟨length, same⟩, List.map_replicate] at answered
    simp only [List.map_replicate] at answered
    rw [level]
    exact answered

end Blends

end Chartist
