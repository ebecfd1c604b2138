import Chartist.Proofs.Exact.Deviation
import Chartist.Proofs.Exact.Rsi
import Chartist.Proofs.Exact.Smoother
import Chartist.Proofs.Real

/-!
# Bands about a mean

The bands of a window are the mean and a multiple of the deviation above and below it, and the share
is where its last value lies between them. All four lines are read off each window on its own
(`bollinger_lines`). With exact arithmetic and real square roots they are numbers: the share is one
half, and the distance of the last value from the mean in units of the bands (`bandShare_num`). As
one of the values of its window, that value is not far from their mean. Main statement:
`bands_about_mean`.
-/

namespace Chartist.Bundle

open Rsi Window Scalar

/-! ## Bands of a window -/

section Windows

variable {α : Type} [Scalar α]

def upperBand (multiplier : α) (window : List α) : α :=
  mean window + multiplier * Window.deviation window

def lowerBand (multiplier : α) (window : List α) : α :=
  mean window - multiplier * Window.deviation window

/-- Where the last value of a window lies between its bands. -/
def bandShare (multiplier : α) (window : List α) : α :=
  percentB (window.getLast?.getD nan) (upperBand multiplier window) (lowerBand multiplier window)

/-- Each line holds what its windows have. -/
theorem bollinger_lines {period : Nat} (positive : 0 < period) (multiplier : α) (data : List α) :
    let bands := Bundle.bollinger period multiplier
    bands.line "upper" data = rolling (upperBand multiplier) data period ∧
    bands.line "middle" data = rolling mean data period ∧
    bands.line "lower" data = rolling (lowerBand multiplier) data period ∧
    bands.line "percent_b" data = rolling (bandShare multiplier) data period := by
  intro bands
  have upper : bands.line "upper" data = rolling (upperBand multiplier) data period :=
    zipWith_rolling ..
  have lower : bands.line "lower" data = rolling (lowerBand multiplier) data period :=
    zipWith_rolling ..
  refine ⟨upper, rfl, lower, ?_⟩
  have share : bands.line "percent_b" data =
      List.zipWith (fun x ends => percentB x ends.1 ends.2) data
        ((bands.line "upper" data).zip (bands.line "lower" data)) := rfl
  rw [share, upper, lower, List.zip, zipWith_rolling]
  nth_rewrite 1 [← rolling_last data positive nan]
  exact zipWith_rolling ..

/-- Bands at a multiple of the deviation about the middle of a window, and the share of its last
value. The bands touch just where all values are equal, and the share is one half there; it is never
further from one half than `√(n - 1) / (2 multiplier)`, for a window of `n` values. -/
structure Banded (multiplier : α) (window : List α) (upper middle lower share : α) : Prop where
  below : le lower middle = true
  above : le middle upper = true
  touch : upper = lower ↔ ∀ x ∈ window, ∀ y ∈ window, x = y
  flat : upper = lower → share = 0.5
  near : le (abs (share - 0.5)) (sqrt (ofCount (window.length - 1)) / (2 * multiplier)) = true

end Windows

/-! ## Bands of numbers -/

section Numbers

variable {α : Type} [Scalar α] {num : ℝ → α} (exact : Exact num)
include exact

theorem half : (0.5 : α) = num (1 / 2) := by
  refine (exact.ofDecimal 5 true 1).trans (congrArg num ?_)
  norm_num

theorem minMultiplier_num : (minMultiplier : α) = num (22250738585072014 / 10 ^ 324) :=
  exact.ofDecimal 22250738585072014 true 324

/-- An accepted multiple is above zero. -/
theorem bollinger_accepted {period : Nat} {multiplier : α}
    (accepted : (Bundle.bollinger period multiplier).validate = .ok ()) :
    0 < period ∧ ∃ k, 0 < k ∧ multiplier = num k := by
  obtain ⟨_, ranged, rest⟩ := exists_of_bind_ok accepted
  obtain ⟨_, passed, -⟩ := exists_of_bind_ok rest
  rw [minMultiplier_num exact, hundred exact] at ranged
  obtain ⟨k, known, bound, -⟩ := exact.of_checkRange ranged
  exact ⟨checkPeriod_pos passed, k, lt_of_lt_of_le (by positivity) bound, known⟩

section Window

variable (rooted : Rooted num) {k : ℝ} {w : List ℝ} (some : w ≠ [])
include rooted some

theorem upperBand_num : upperBand (num k) (w.map num) = num (center w + k * sigma w) := by
  rw [upperBand, mean_num exact some, deviation_num exact rooted some, exact.mul, exact.add]

theorem lowerBand_num : lowerBand (num k) (w.map num) = num (center w - k * sigma w) := by
  rw [lowerBand, mean_num exact some, deviation_num exact rooted some, exact.mul, exact.sub]

/-- Without a deviation both sides are one half, the right one since nothing is divided by zero. -/
theorem bandShare_num (above : 0 < k) :
    bandShare (num k) (w.map num) =
      num (1 / 2 + (w.getLast some - center w) / (2 * k * sigma w)) := by
  have last : (w.map num).getLast?.getD nan = num (w.getLast some) := by
    rw [List.getLast?_map, List.getLast?_eq_getLast_of_ne_nil some]
    rfl
  have width : center w + k * sigma w - (center w - k * sigma w) = 2 * k * sigma w := by ring
  simp only [bandShare, percentB, last, upperBand_num exact rooted some,
    lowerBand_num exact rooted some, exact.sub, width, exact.zero, exact.lt, decide_eq_true_eq]
  by_cases deviates : 0 < sigma w
  · have wide : 0 < 2 * k * sigma w := by positivity
    have shifted : (w.getLast some - (center w - k * sigma w)) / (2 * k * sigma w) =
        1 / 2 + (w.getLast some - center w) / (2 * k * sigma w) := by
      field_simp
      ring
    rw [if_pos wide, exact.div _ _ wide.ne', shifted]
  · have still : sigma w = 0 := le_antisymm (not_lt.mp deviates) (sigma_nonneg w)
    rw [if_neg (by rw [still, mul_zero]; exact lt_irrefl 0), half exact, still, mul_zero, div_zero,
      add_zero]

omit [Scalar α] exact rooted some in
theorem abs_offset_le (above : 0 < k) {x : ℝ} (member : x ∈ w) :
    |(x - center w) / (2 * k * sigma w)| ≤ √(w.length - 1) / (2 * k) := by
  by_cases deviates : 0 < sigma w
  · have wide : 0 < 2 * k * sigma w := by positivity
    rw [abs_div, abs_of_pos wide]
    calc |x - center w| / (2 * k * sigma w)
        ≤ √(w.length - 1) * sigma w / (2 * k * sigma w) :=
          div_le_div_of_nonneg_right (abs_sub_center_le member) wide.le
      _ = √(w.length - 1) / (2 * k) := mul_div_mul_right _ _ deviates.ne'
  · have still : sigma w = 0 := le_antisymm (not_lt.mp deviates) (sigma_nonneg w)
    rw [still, mul_zero, div_zero, abs_zero]
    positivity

theorem banded_num (ordinary : Ordinary num) (above : 0 < k) :
    Banded (num k) (w.map num) (upperBand (num k) (w.map num)) (mean (w.map num))
      (lowerBand (num k) (w.map num)) (bandShare (num k) (w.map num)) := by
  have reach : 0 ≤ k * sigma w := mul_nonneg above.le (sigma_nonneg w)
  have touch : num (center w + k * sigma w) = num (center w - k * sigma w) ↔ sigma w = 0 := by
    constructor
    · intro same
      have double : 2 * (k * sigma w) = 0 := by linarith [exact.injective same]
      simpa [above.ne'] using double
    · intro still
      rw [still, mul_zero, add_zero, sub_zero]
  rw [upperBand_num exact rooted some, lowerBand_num exact rooted some, mean_num exact some,
    bandShare_num exact rooted some above]
  constructor
  case below =>
    rw [exact.le, decide_eq_true_eq]
    exact sub_le_self _ reach
  case above =>
    rw [exact.le, decide_eq_true_eq]
    exact le_add_of_nonneg_right reach
  case touch =>
    rw [touch, sigma_eq_zero_iff some]
    simp only [List.forall_mem_map]
    constructor
    · intro same x here y there
      rw [same x here y there]
    · intro same x here y there
      exact exact.injective (same x here y there)
  case flat =>
    rw [touch]
    intro still
    rw [still, mul_zero, div_zero, add_zero, half exact]
  case near =>
    have count : ((w.length - 1 : Nat) : ℝ) = w.length - 1 :=
      Nat.cast_pred (List.length_pos_iff.mpr some)
    have others : (0 : ℝ) ≤ w.length - 1 := count ▸ Nat.cast_nonneg _
    have bound := abs_offset_le above (List.getLast_mem some)
    rw [half exact, exact.sub, add_sub_cancel_left, ordinary.abs, List.length_map, exact.ofCount,
      count, rooted _ others, exact.natLit 2, exact.mul, exact.div _ _ (by positivity), exact.le,
      decide_eq_true_eq]
    exact_mod_cast bound

/-! ### Reflections of a window -/

omit rooted in
theorem mean_reflect (q : ℝ) :
    mean ((w.map (q - ·)).map num) = num q - mean (w.map num) := by
  rw [mean_num exact (List.map_eq_nil_iff.not.mpr some), mean_num exact some,
    center_reflect q some, exact.sub]

theorem upperBand_reflect (q : ℝ) :
    upperBand (num k) ((w.map (q - ·)).map num) = num q - lowerBand (num k) (w.map num) := by
  rw [upperBand_num exact rooted (List.map_eq_nil_iff.not.mpr some),
    lowerBand_num exact rooted some, sigma_reflect, center_reflect q some, exact.sub, sub_add]

theorem lowerBand_reflect (q : ℝ) :
    lowerBand (num k) ((w.map (q - ·)).map num) = num q - upperBand (num k) (w.map num) := by
  rw [lowerBand_num exact rooted (List.map_eq_nil_iff.not.mpr some),
    upperBand_num exact rooted some, sigma_reflect, center_reflect q some, exact.sub,
    sub_add_eq_sub_sub]

theorem bandShare_reflect (above : 0 < k) (q : ℝ) :
    bandShare (num k) ((w.map (q - ·)).map num) = 1 - bandShare (num k) (w.map num) := by
  rw [bandShare_num exact rooted (List.map_eq_nil_iff.not.mpr some) above,
    bandShare_num exact rooted some above, sigma_reflect, center_reflect q some, List.getLast_map,
    exact.one, exact.sub]
  exact congrArg num (by ring)

end Window

/-! ## Bands of a series -/

omit [Scalar α] exact in
/-- What is reflected on every window is so along the whole series. -/
theorem rolling_reflect {f g : List α → α} {h : α → α} {period : Nat} (positive : 0 < period)
    {c : ℝ} (each : ∀ w : List ℝ, w ≠ [] → f ((w.map (c - ·)).map num) = h (g (w.map num)))
    (xs : List ℝ) :
    rolling f ((xs.map (c - ·)).map num) period = (rolling g (xs.map num) period).map h := by
  rw [rolling_map, rolling_map, rolling_map, map_rolling]
  exact rolling_congr positive each

/-- The bands about the mean of a finite series, whose parameters pass their checks: at every index
they are bands of the window and hold its last value well (`Banded`), and a reflection of the series
exchanges them and reflects the means and the shares. -/
theorem bands_about_mean (ordinary : Ordinary num) (rooted : Rooted num) {period : Nat}
    {multiplier : α} (accepted : (Bundle.bollinger period multiplier).validate = .ok ())
    {data : List α} (finite : ∀ x ∈ data, isFinite x = true) :
    let bands := Bundle.bollinger period multiplier
    (∀ i, i < data.length → (trailing data i period).length = min period (i + 1) ∧
      ∃ upper middle lower share, (bands.line "upper" data)[i]? = some upper ∧
        (bands.line "middle" data)[i]? = some middle ∧
        (bands.line "lower" data)[i]? = some lower ∧
        (bands.line "percent_b" data)[i]? = some share ∧
        Banded multiplier (trailing data i period) upper middle lower share) ∧
    ∀ c : α, isFinite c = true →
      let reflected := data.map fun x => c - x
      bands.line "middle" reflected = (bands.line "middle" data).map (c - ·) ∧
      bands.line "upper" reflected = (bands.line "lower" data).map (c - ·) ∧
      bands.line "lower" reflected = (bands.line "upper" data).map (c - ·) ∧
      bands.line "percent_b" reflected = (bands.line "percent_b" data).map (1 - ·) := by
  intro bands
  obtain ⟨positive, k, above, rfl⟩ := bollinger_accepted exact accepted
  obtain ⟨xs, rfl⟩ := exact.exists_map finite
  have lines := bollinger_lines positive (num k)
  refine ⟨?_, ?_⟩
  · intro i inside
    refine ⟨length_trailing inside period, ?_⟩
    obtain ⟨upper, middle, lower, share⟩ := lines (xs.map num)
    rw [upper, middle, lower, share]
    refine ⟨_, _, _, _, getElem?_rolling _ inside _, getElem?_rolling _ inside _,
      getElem?_rolling _ inside _, getElem?_rolling _ inside _, ?_⟩
    rw [trailing_map]
    rw [List.length_map] at inside
    exact banded_num exact rooted (trailing_ne_nil inside positive) ordinary above
  · intro c finiteC reflected
    obtain ⟨q, rfl⟩ := (exact.isFinite c).mp finiteC
    have turned : reflected = (xs.map (q - ·)).map num := map_num (exact.sub q) xs
    obtain ⟨upper, middle, lower, share⟩ := lines (xs.map num)
    obtain ⟨upper', middle', lower', share'⟩ := lines reflected
    rw [upper, middle, lower, share, upper', middle', lower', share', turned]
    exact ⟨rolling_reflect positive (fun _ some => mean_reflect exact some q) xs,
      rolling_reflect positive (fun _ some => upperBand_reflect exact rooted some q) xs,
      rolling_reflect positive (fun _ some => lowerBand_reflect exact rooted some q) xs,
      rolling_reflect positive (fun _ some => bandShare_reflect exact rooted some above q) xs⟩

end Numbers

/-- Windows of two real numbers: the middle one of three has its value at the bound, three quarters
up, and the bands touch before and after it. -/
theorem bands_about_mean_quantity :
    let data : List Quantity := [.of 1, .of 3, .of 3]
    let bands : Bundle Quantity := .bollinger 2 (.of 2)
    Exact Quantity.of ∧ Ordinary Quantity.of ∧ Rooted Quantity.of ∧ bands.validate = .ok () ∧
    (∀ x ∈ data, isFinite x = true) ∧
    (bands.line "percent_b" data)[1]? = some (.of (3 / 4)) ∧
    Banded (.of 2) [.of 1, .of 3] (.of 4) (.of 2) (.of 0) (Quantity.of (3 / 4)) ∧
    bands.line "upper" (data.map fun x => .of 5 - x) =
      (bands.line "lower" data).map (.of 5 - ·) := by
  intro data bands
  have rooted : Rooted Quantity.of := fun _ _ => rfl
  have finite : ∀ x ∈ data, isFinite x = true := fun _ _ => rfl
  have inside : within minMultiplier (Quantity.of 2) 100 = true := by
    have least : (22250738585072014 : ℝ) ≤ 10 ^ 324 :=
      (by norm_num : (22250738585072014 : ℝ) ≤ 10 ^ 17).trans
        (pow_le_pow_right₀ (by norm_num) (by norm_num))
    rw [minMultiplier_num Quantity.exact, hundred Quantity.exact, Quantity.exact.within]
    exact ⟨(div_le_one_of_le₀ least (by positivity)).trans one_le_two, by norm_num⟩
  have accepted : bands.validate = .ok () := by
    simp only [bands, validate, checkRange, inside, if_true]
    rfl
  obtain ⟨each, reflected⟩ :=
    bands_about_mean Quantity.exact Quantity.ordinary rooted accepted finite
  obtain ⟨-, upper, middle, lower, share, isUpper, isMiddle, isLower, isShare, banded⟩ :=
    each 1 (by decide)
  -- the window of the second value has its mean at 2, and the deviation 1
  have window : trailing data 1 2 = [(1 : ℝ), 3].map Quantity.of := rfl
  have some : [(1 : ℝ), 3] ≠ [] := List.cons_ne_nil _ _
  have mid : center [(1 : ℝ), 3] = 2 := by norm_num [center]
  have one : sigma [(1 : ℝ), 3] = 1 := by norm_num [sigma, spread, mid]
  obtain ⟨uppers, middles, lowers, shares⟩ := bollinger_lines Nat.two_pos (Quantity.of 2) data
  have second {f : List Quantity → Quantity} {x y : Quantity} {series : List Quantity}
      (rolls : series = rolling f data 2) (known : f ([(1 : ℝ), 3].map Quantity.of) = y)
      (found : series[1]? = .some x) : x = y := by
    rw [rolls, getElem?_rolling f (by decide), window, known] at found
    exact (Option.some_injective _ found).symm
  obtain rfl : upper = .of 4 := by
    refine second uppers ?_ isUpper
    rw [upperBand_num Quantity.exact rooted some, mid, one]
    norm_num
  obtain rfl : middle = .of 2 := by
    refine second middles ?_ isMiddle
    rw [mean_num Quantity.exact some, mid]
  obtain rfl : lower = .of 0 := by
    refine second lowers ?_ isLower
    rw [lowerBand_num Quantity.exact rooted some, mid, one]
    norm_num
  obtain rfl : share = .of (3 / 4) := by
    refine second shares ?_ isShare
    rw [bandShare_num Quantity.exact rooted some two_pos, mid, one]
    norm_num
  exact ⟨Quantity.exact, Quantity.ordinary, rooted, accepted, finite, isShare, banded,
    (reflected (.of 5) rfl).2.1⟩

end Chartist.Bundle
